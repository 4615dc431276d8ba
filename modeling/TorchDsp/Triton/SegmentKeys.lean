import Mathlib.Data.List.Nodup
import TorchDsp.Foundation.Numeral
import TorchDsp.Triton.Request

/-! # The keys of shared-memory segments

`allocate_shm` numbers its segments and appends the number to the name of the
tensor with nothing in between. Two keys are the same exactly when the number of
one segment ends in the number of the other and the digits before it end the
other's name (`TorchDsp.TritonModelImpl.keys_distinct_iff`).
-/

namespace TorchDsp

namespace TritonModelImpl

/-- A sequence of calls of `allocate_shm`. -/
def allocateAll : Statics → List IoMetadata → List IoMemory × Statics
  | statics, [] => ([], statics)
  | statics, ioMeta :: rest =>
      let (ioMem, statics) := allocateShm statics ioMeta
      let (ioMems, statics) := allocateAll statics rest
      (ioMem :: ioMems, statics)

/-- The number of the segment that a call of the sequence allocates. -/
def segment (statics : Statics) (position : Nat) : Nat :=
  (statics.segmentNumber + position) % 2 ^ 32

/-- The key of a segment: the prefix, the name of the tensor and the number. -/
def segmentKey (name : String) (number : Nat) : String := "/gr_" ++ name ++ toString number

private theorem segmentKey_eq_iff {name other : String} {i j : Nat} :
    segmentKey name i = segmentKey other j ↔
      name = other ∧ i = j ∨
      Numeral.EndsIn j i ∧ name = other ++ toString (Numeral.before j i) ∨
      Numeral.EndsIn i j ∧ other = name ++ toString (Numeral.before i j) := by
  rw [segmentKey, segmentKey, String.append_assoc, String.append_assoc, String.append_right_inj]
  exact Numeral.append_toString_eq_iff

private theorem getElem?_keys {statics : Statics} (counter : statics.segmentNumber < 2 ^ 32)
    (tensors : List IoMetadata) (position : Nat) :
    ((allocateAll statics tensors).1.map IoMemory.shmKey)[position]? =
      tensors[position]?.map fun ioMeta =>
        segmentKey ioMeta.name (segment statics position) := by
  induction tensors generalizing statics position with
  | nil => rfl
  | cons ioMeta rest ih =>
      have later : (statics.segmentNumber + 1) % 2 ^ 32 < 2 ^ 32 := Nat.mod_lt _ (by decide)
      cases position with
      | zero =>
          have first : segment statics 0 = statics.segmentNumber := Nat.mod_eq_of_lt counter
          rw [first]
          rfl
      | succ position =>
          have onward : segment (allocateShm statics ioMeta).2 position =
              segment statics (position + 1) := by
            simp only [segment, allocateShm]
            omega
          rw [← onward]
          exact ih later position

private theorem length_keys (statics : Statics) (tensors : List IoMetadata) :
    ((allocateAll statics tensors).1.map IoMemory.shmKey).length = tensors.length := by
  rw [List.length_map]
  induction tensors generalizing statics with
  | nil => rfl
  | cons ioMeta rest ih => exact congrArg Nat.succ (ih _)

/-- The numbers of fewer than `2 ^ 32` segments are distinct. -/
theorem segment_injective {statics : Statics} {p q : Nat} (first : p < 2 ^ 32)
    (second : q < 2 ^ 32) (same : segment statics p = segment statics q) : p = q := by
  unfold segment at same
  omega

/-- **When the keys of a sequence of segments are distinct.** -/
theorem keys_distinct_iff {statics : Statics} {tensors : List IoMetadata}
    (counter : statics.segmentNumber < 2 ^ 32) (few : tensors.length < 2 ^ 32) :
    ((allocateAll statics tensors).1.map IoMemory.shmKey).Nodup ↔
      ∀ (p q : Nat) (first second : IoMetadata), tensors[p]? = some first →
        tensors[q]? = some second → Numeral.EndsIn (segment statics p) (segment statics q) →
          second.name ≠
            first.name ++ toString (Numeral.before (segment statics p) (segment statics q)) := by
  have key {p : Nat} {ioMeta : IoMetadata} (listed : tensors[p]? = some ioMeta) :
      ((allocateAll statics tensors).1.map IoMemory.shmKey)[p]? =
        some (segmentKey ioMeta.name (segment statics p)) := by
    rw [getElem?_keys counter, listed]
    rfl
  have within {p : Nat} {ioMeta : IoMetadata} (listed : tensors[p]? = some ioMeta) :
      p < tensors.length := (List.getElem?_eq_some_iff.mp listed).1
  constructor
  · intro distinct p q first second listed other ends named
    have same : ((allocateAll statics tensors).1.map IoMemory.shmKey)[p]? =
        ((allocateAll statics tensors).1.map IoMemory.shmKey)[q]? := by
      rw [key listed, key other, Option.some.injEq, segmentKey_eq_iff]
      exact Or.inr (Or.inr ⟨ends, named⟩)
    have one : p = q :=
      (List.getElem?_inj (by rw [length_keys]; exact within listed) distinct).mp same
    rw [one] at ends
    exact Numeral.not_endsIn_self _ ends
  · intro apart
    rw [List.nodup_iff_getElem?_ne_getElem?]
    intro p q earlier bound same
    rw [length_keys] at bound
    have listed : tensors[p]? = some tensors[p] := List.getElem?_eq_getElem _
    have other : tensors[q]? = some tensors[q] := List.getElem?_eq_getElem bound
    rw [key listed, key other, Option.some.injEq, segmentKey_eq_iff] at same
    rcases same with ⟨_, numbers⟩ | ⟨ends, named⟩ | ⟨ends, named⟩
    · have one := segment_injective (by omega) (by omega) numbers
      omega
    · exact apart q p _ _ other listed ends named
    · exact apart p q _ _ listed other ends named

/-- The tensors of a model with two numbered inputs. -/
def numberedInputs : List IoMetadata :=
  [⟨[1, 4], "input__0", "FP32"⟩, ⟨[1, 4], "input__1", "FP32"⟩]

/-- Two numbered inputs get distinct keys. -/
theorem numbered_inputs_distinct :
    ((allocateAll {} numberedInputs).1.map IoMemory.shmKey).Nodup := by
  refine (keys_distinct_iff (by decide) (by decide)).mpr fun p q first second listed _ ends => ?_
  have within : p < 2 := (List.getElem?_eq_some_iff.mp listed).1
  have number : segment {} p = p := by
    rw [segment, Nat.zero_add]
    exact Nat.mod_eq_of_lt (by omega)
  have least : 10 ^ 1 ≤ 10 ^ Numeral.width (segment {} q) :=
    Nat.pow_le_pow_right (by decide) (Numeral.width_pos _)
  have longer := ends.1
  omega

/-- Ten tensors after one whose name ends in a digit, and the last one without it. -/
def elevenTensors : List IoMetadata :=
  ⟨[1, 4], "input1", "FP32"⟩ :: List.replicate 9 ⟨[1, 4], "output", "FP32"⟩ ++
    [⟨[1, 4], "input", "FP32"⟩]

/-- The first and the last segment have the key `/gr_input10`. -/
theorem eleven_tensors_share_key :
    elevenTensors.length < 2 ^ 32 ∧
      ((allocateAll {} elevenTensors).1.map IoMemory.shmKey)[0]? = some "/gr_input10" ∧
      ((allocateAll {} elevenTensors).1.map IoMemory.shmKey)[10]? = some "/gr_input10" ∧
      ¬ ((allocateAll {} elevenTensors).1.map IoMemory.shmKey).Nodup := by
  have first : ((allocateAll {} elevenTensors).1.map IoMemory.shmKey)[0]? =
      some "/gr_input10" := by decide +kernel
  have last : ((allocateAll {} elevenTensors).1.map IoMemory.shmKey)[10]? =
      some "/gr_input10" := by decide +kernel
  refine ⟨by decide, first, last, fun distinct => ?_⟩
  have within : 0 < ((allocateAll {} elevenTensors).1.map IoMemory.shmKey).length := by
    rw [length_keys]
    decide
  have one := (List.getElem?_inj within distinct).mp (first.trans last.symm)
  omega

/-! ## The segments of models -/

/-- Two sequences of calls that start from the same number allocate the same. -/
theorem allocateAll_congr {statics other : Statics}
    (same : statics.segmentNumber = other.segmentNumber) (tensors : List IoMetadata) :
    (allocateAll statics tensors).1 = (allocateAll other tensors).1 ∧
      (allocateAll statics tensors).2.segmentNumber =
        (allocateAll other tensors).2.segmentNumber := by
  induction tensors generalizing statics other with
  | nil => exact ⟨rfl, same⟩
  | cons ioMeta rest ih =>
      have next : (allocateShm statics ioMeta).2.segmentNumber =
          (allocateShm other ioMeta).2.segmentNumber := by
        simp only [allocateShm, same]
      obtain ⟨later, number⟩ := ih next
      refine ⟨?_, number⟩
      simp only [allocateAll, later]
      simp only [allocateShm, same]

private theorem allocateAll_append (statics : Statics) (front back : List IoMetadata) :
    (allocateAll statics (front ++ back)).1 =
        (allocateAll statics front).1 ++ (allocateAll (allocateAll statics front).2 back).1 ∧
      (allocateAll statics (front ++ back)).2 =
        (allocateAll (allocateAll statics front).2 back).2 := by
  induction front generalizing statics with
  | nil => exact ⟨rfl, rfl⟩
  | cons ioMeta rest ih =>
      obtain ⟨later, number⟩ := ih (allocateShm statics ioMeta).2
      exact ⟨congrArg (List.cons _) later, number⟩

/-- The listed tensors that a loop of the constructor allocates a segment for: those up
to the first without bytes, which ends the loop. -/
def allocated : List IoMetadata → List IoMetadata
  | [] => []
  | ioMeta :: rest =>
      if elementByteSize ioMeta = 0 then [ioMeta] else ioMeta :: allocated rest

/-- The segments that a loop keeps. -/
def kept (ioMems : List IoMemory) : List IoMemory :=
  ioMems.filter fun ioMem => ioMem.elementByteSize ≠ 0

/-- A loop of the constructor keeps the segments it allocates for tensors with bytes. -/
theorem Configures.allocates
    {loop : Statics → TritonModelImpl → List IoMetadata → TritonModelImpl × Statics}
    {take : Statics → TritonModelImpl → IoMetadata → TritonModelImpl × Statics}
    (configures : Configures loop take) (memories : TritonModelImpl → List IoMemory)
    (taken : ∀ statics model ioMeta,
      memories (take statics model ioMeta).1 = memories model ++ [(allocateShm statics ioMeta).1] ∧
        (take statics model ioMeta).2.segmentNumber =
          (allocateShm statics ioMeta).2.segmentNumber)
    (statics : Statics) (model : TritonModelImpl) (listed : List IoMetadata) :
    memories (loop statics model listed).1 =
        memories model ++ kept (allocateAll statics (allocated listed)).1 ∧
      (loop statics model listed).2.segmentNumber =
        (allocateAll statics (allocated listed)).2.segmentNumber := by
  induction listed generalizing statics model with
  | nil =>
      rw [configures.ends]
      exact ⟨(List.append_nil _).symm, rfl⟩
  | cons ioMeta rest ih =>
      by_cases empty : elementByteSize ioMeta = 0
      · have last : kept (allocateAll statics [ioMeta]).1 = [] :=
          List.filter_cons_of_neg fun bytes => of_decide_eq_true bytes empty
        rw [configures.stops _ _ _ _ empty, allocated, if_pos empty, last, List.append_nil]
        exact ⟨rfl, rfl⟩
      · obtain ⟨memory, number⟩ := taken statics model ioMeta
        obtain ⟨memories, segments⟩ :=
          ih (take statics model ioMeta).2 (take statics model ioMeta).1
        have same := allocateAll_congr number (allocated rest)
        have first : kept (allocateAll statics (ioMeta :: allocated rest)).1 =
            (allocateShm statics ioMeta).1 ::
              kept (allocateAll (take statics model ioMeta).2 (allocated rest)).1 := by
          rw [same.1]
          exact List.filter_cons_of_pos (decide_eq_true empty)
        rw [configures.goes _ _ _ _ empty, allocated, if_neg empty, memories, memory, first,
          List.append_assoc]
        exact ⟨rfl, segments.trans same.2⟩

/-- The tensors that a construction allocates segments for. -/
def Construction.allocated (construction : Construction) : List IoMetadata :=
  if construction.healthy then
    TritonModelImpl.allocated construction.inputs ++ TritonModelImpl.allocated construction.outputs
  else []

/-- The segments of a model, the inputs before the outputs. -/
def memories (model : TritonModelImpl) : List IoMemory :=
  model.inputs ++ model.outputs

private theorem create_allocates (statics : Statics) (construction : Construction) :
    memories (construction.create statics).1 =
        kept (allocateAll statics construction.allocated).1 ∧
      (construction.create statics).2.segmentNumber =
        (allocateAll statics construction.allocated).2.segmentNumber := by
  obtain ⟨modelName, async, healthy, inputs, outputs⟩ := construction
  cases healthy with
  | false => exact ⟨rfl, rfl⟩
  | true =>
      have whole : create statics modelName async true inputs outputs =
          configureOutputs (configureInputs statics { modelName, async } inputs).2
            (configureInputs statics { modelName, async } inputs).1 outputs := rfl
      obtain ⟨ofInputs, number⟩ := configures_inputs.allocates TritonModelImpl.inputs
        (fun _ _ _ => ⟨rfl, rfl⟩) statics { modelName, async } inputs
      have noOutputs := (configureInputs_spec statics { modelName, async } inputs).2.2.1
      rw [Construction.create, whole]
      generalize configureInputs statics { modelName, async } inputs = first at *
      obtain ⟨ofOutputs, final⟩ := configures_outputs.allocates TritonModelImpl.outputs
        (fun _ _ _ => ⟨rfl, rfl⟩) first.2 first.1 outputs
      have sameInputs := (configureOutputs_spec first.2 first.1 outputs).2.2.1
      have same := allocateAll_congr number (allocated outputs)
      have split := allocateAll_append statics (allocated inputs) (allocated outputs)
      rw [noOutputs, List.nil_append, same.1] at ofOutputs
      rw [same.2] at final
      refine ⟨?_, final.trans (congrArg Statics.segmentNumber split.2.symm)⟩
      calc memories (configureOutputs first.2 first.1 outputs).1
          = kept (allocateAll statics (allocated inputs)).1 ++
              kept (allocateAll (allocateAll statics (allocated inputs)).2 (allocated outputs)).1 :=
            congrArg₂ List.append (sameInputs.trans ofInputs) ofOutputs
        _ = kept (allocateAll statics (allocated inputs ++ allocated outputs)).1 := by
            rw [split.1, kept, kept, kept, List.filter_append]

/-- A sequence of constructions. -/
def createAll : Statics → List Construction → List TritonModelImpl × Statics
  | statics, [] => ([], statics)
  | statics, construction :: rest =>
      let (model, statics) := construction.create statics
      let (models, statics) := createAll statics rest
      (model :: models, statics)

/-- The segments of models are some of those that a sequence of calls of `allocate_shm`
allocates, in the order of the calls. -/
theorem createAll_allocates (statics : Statics) (constructions : List Construction) :
    (createAll statics constructions).1.flatMap memories =
      kept (allocateAll statics (constructions.flatMap Construction.allocated)).1 := by
  induction constructions generalizing statics with
  | nil => rfl
  | cons construction rest ih =>
      obtain ⟨first, number⟩ := create_allocates statics construction
      have same := allocateAll_congr number (rest.flatMap Construction.allocated)
      have split := allocateAll_append statics construction.allocated
        (rest.flatMap Construction.allocated)
      calc (createAll statics (construction :: rest)).1.flatMap memories
          = memories (construction.create statics).1 ++
              (createAll (construction.create statics).2 rest).1.flatMap memories :=
            List.flatMap_cons
        _ = kept (allocateAll statics construction.allocated).1 ++
              kept (allocateAll (allocateAll statics construction.allocated).2
                (rest.flatMap Construction.allocated)).1 := by rw [first, ih, same.1]
        _ = kept (allocateAll statics
              ((construction :: rest).flatMap Construction.allocated)).1 := by
            rw [List.flatMap_cons, split.1, kept, kept, kept, List.filter_append]

/-- Models have distinct keys when the calls made for them have. -/
theorem model_keys_distinct (statics : Statics) (constructions : List Construction)
    (distinct : ((allocateAll statics (constructions.flatMap Construction.allocated)).1.map
      IoMemory.shmKey).Nodup) :
    (((createAll statics constructions).1.flatMap memories).map IoMemory.shmKey).Nodup := by
  rw [createAll_allocates]
  exact distinct.sublist (List.filter_sublist.map _)

end TritonModelImpl

end TorchDsp
