import TorchDsp.Executor.ChainAccounting
import TorchDsp.Triton.Outcome
import TorchDsp.Triton.Request

/-! # Handing items over in shared memory

Along a chain, a request names the items that its reader has available. What the
block before computes in the same iteration is published after all requests are
built, so a chain whose internal buffers are empty hands over nothing in any
iteration that runs its blocks (`TorchDsp.Stage.handed_over_iff`).
-/

namespace TorchDsp

/-! ## The regions of a request -/

/-- The request that a call hands to the client. -/
def TritonCall.request (c : TritonCall) : Option InferRequest :=
  c.inference.bind fun inference =>
    (c.block.work inference.inBufs inference.outBufs inference.noutputItems
      inference.outcome).map WorkResult.request

/-- The region that a request reads input `i` from. -/
def InferRequest.inputRegion (request : InferRequest) (i : Nat) : Option SharedMemory :=
  request.inputs[i]?.bind InferInput.sharedMemory

/-- The region that a request computes output `j` into. -/
def InferRequest.outputRegion (request : InferRequest) (j : Nat) : Option SharedMemory :=
  request.outputs[j]?.bind InferRequestedOutput.sharedMemory

private theorem TritonModelImpl.getElem?_of_shareInputs {batchSize : Nat}
    {inputs shared : List InferInput} {buffers : List BufferTritonReader}
    (shares : shareInputs batchSize inputs buffers = some shared) {i : Nat} {tensor : InferInput}
    (listed : shared[i]? = some tensor) :
    ∃ input buffer, buffers[i]? = some buffer ∧ tensor = shareInput batchSize buffer input := by
  induction inputs generalizing buffers shared i with
  | nil =>
      cases shares
      cases listed
  | cons input inputs ih =>
      obtain ⟨buffer, later, rest, rfl, _, onward, rfl⟩ := shareInputs_cons_eq_some shares
      cases i with
      | zero => cases listed; exact ⟨input, buffer, rfl, rfl⟩
      | succ i => exact ih onward listed

/-- The region of an input has the bytes of the items that its reader has
available. -/
theorem TritonCall.inputRegion_eq {c : TritonCall} {request : InferRequest} {i : Nat}
    {region : SharedMemory} (built : c.request = some request)
    (named : request.inputRegion i = some region) :
    ∃ inference buffer, c.inference = some inference ∧ inference.inBufs[i]? = some buffer ∧
      region = ⟨buffer.shmKey, buffer.itemsAvailable * buffer.itemSize, buffer.readIndex⟩ := by
  obtain ⟨inference, inferred, built⟩ := Option.bind_eq_some_iff.mp built
  obtain ⟨result, worked, same⟩ := Option.map_eq_some_iff.mp built
  obtain ⟨_, _, _, inputs, _, _, _, shares, _, rfl⟩ := TritonBlock.work_eq_some worked
  subst same
  obtain ⟨tensor, listed, shared⟩ := Option.bind_eq_some_iff.mp named
  obtain ⟨input, buffer, viewed, rfl⟩ := TritonModelImpl.getElem?_of_shareInputs shares listed
  cases shared
  rw [buffer.bytes_mod]
  exact ⟨inference, buffer, inferred, viewed, rfl⟩

/-! ## Chains of triton blocks -/

/-- The buffers handed to an inference of the block at position `p` are those of
its ports: a reader has the published items available that it has not released. -/
structure Group.Views (g : Group) (keys : Nat → String) (p : Nat) (inference : Inference) :
    Prop where
  readers : ∀ i r, g.reader p i = some r → ∃ view, inference.inBufs[i]? = some view ∧
    view.shmKey = keys r.source ∧ view.itemsAvailable = g.itemsAvailable r
  writers : ∀ j k, g.outputBuffer p j = some k → ∃ view, inference.outBufs[j]? = some view ∧
    view.shmKey = keys k ∧ view.spaceAvailable = g.spaceAvailable k

/-- The internal buffers of a group are empty. -/
def Group.EdgesEmpty (g : Group) : Prop :=
  ∀ p i r, g.reader p i = some r → r.source ∈ GraphExecutor.outputBuffers g.blocks →
    r.totalRead = (g.buffers r.source).totalWritten

private theorem Group.drained_iff {g : Group} {p i : Nat} {r : BufferReader}
    (attached : g.reader p i = some r) :
    g.ledger.Drained g.sourceOf (p, i) ↔ r.totalRead = (g.buffers r.source).totalWritten := by
  simp only [Ledger.Drained, ledger, sourceOf, attached, Option.elim_some]

/-- A chain of triton blocks with empty internal buffers. -/
structure Group.TritonChain (g : Group) : Prop where
  chain : g.Chain
  triton : ∀ b ∈ g.blocks, ∃ async, b.kind = .triton async
  empty : g.EdgesEmpty

/-- All blocks of an iteration process the same number of items, and their
inferences work on the buffers of the group. -/
structure Lockstep (keys : Nat → String) (answers : Answers) (calls : Nat → List TritonCall)
    (g : Group) : Prop where
  uniform : answers.Uniform
  together : ∀ p q, p < g.blocks.length → q < g.blocks.length → answers.moves p = answers.moves q
  views : ∀ p, ∀ c ∈ calls p, ∀ inference, c.inference = some inference →
    g.Views keys p inference

/-- The region that `consumer` reads input `i` from is not empty, and is what
`producer` computes into at output `j`. -/
def HandedOver (producer consumer : TritonCall) (j i : Nat) : Prop :=
  ∃ inference buffer request request' computed named,
    producer.inference = some inference ∧ inference.outBufs[j]? = some buffer ∧
    producer.request = some request ∧ request.outputRegion j = some computed ∧
    consumer.request = some request' ∧ request'.inputRegion i = some named ∧
    0 < named.byteSize ∧ named.name = computed.name ∧ named.offset = computed.offset ∧
    named.byteSize = inference.noutputItems * buffer.itemSize

namespace GraphExecutor

/-- In an iteration that runs its blocks, every block hands over what it computes
to the next one. -/
def HandsOver (answers : Answers) (calls : Nat → List TritonCall) (g : Group) : Prop :=
  passes answers g = true → ∀ p i j r, g.reader (p + 1) i = some r →
    g.outputBuffer p j = some r.source → ∃ producer consumer,
      finalCall calls g.blocks.length p = some producer ∧
      finalCall calls g.blocks.length (p + 1) = some consumer ∧ HandedOver producer consumer j i

/-- In a chain, the last block reads a buffer that the block before it writes. -/
theorem exists_link {g : Group} (chain : g.Chain) :
    ∃ p i j r, g.reader (p + 1) i = some r ∧ g.outputBuffer p j = some r.source ∧
      r.source ∈ outputBuffers g.blocks := by
  have several := chain.several
  obtain ⟨b, present⟩ : ∃ b, g.blocks[0]? = some b :=
    ⟨_, List.getElem?_eq_getElem (by omega : 0 < g.blocks.length)⟩
  obtain ⟨i, r, attached, written⟩ := chain.linked 0 b present (by omega)
  obtain ⟨w, listed, buffered⟩ := List.mem_filterMap.mp written
  obtain ⟨j, port⟩ := List.mem_iff_getElem?.mp listed
  refine ⟨0, i, j, r, attached, ?_, List.mem_flatMap.mpr ⟨_, List.mem_of_getElem? present, written⟩⟩
  rw [Group.outputBuffer, Group.output, present, Option.bind_some, port, Option.bind_some, buffered]

/-- A chain with empty internal buffers hands over nothing. -/
theorem handsOver_iff {keys : Nat → String} {answers : Answers} {calls : Nat → List TritonCall}
    {g : Group} (chain : g.Chain) (empty : g.EdgesEmpty)
    (lockstep : Lockstep keys answers calls g) :
    HandsOver answers calls g ↔ passes answers g = false := by
  constructor
  · intro hands
    by_contra reaches
    rw [Bool.not_eq_false] at reaches
    obtain ⟨p, i, j, r, attached, written, inner⟩ := exists_link chain
    obtain ⟨producer, consumer, _, final, handed⟩ := hands reaches p i j r attached written
    obtain ⟨_, _, _, request, _, named, _, _, _, _, built, region, filled, _⟩ := handed
    obtain ⟨inference, buffer, inferred, viewed, rfl⟩ := TritonCall.inputRegion_eq built region
    have member : consumer ∈ calls (p + 1) := List.mem_of_find?_eq_some final
    obtain ⟨view, viewed', _, available⟩ :=
      (lockstep.views (p + 1) consumer member inference inferred).readers i r attached
    cases viewed.symm.trans viewed'
    have nothing : g.itemsAvailable r = 0 := by
      rw [Group.itemsAvailable, empty (p + 1) i r attached inner, Nat.sub_self]
    simp only [available, nothing, Nat.zero_mul, Nat.lt_irrefl] at filled
  · intro blocked reaches
    rw [blocked] at reaches
    cases reaches

/-- An iteration in lockstep leaves the internal buffers empty. -/
theorem edgesEmpty_iteration {answers : Answers} {g : Group} {iteration : Iteration}
    (returns : runOneIteration answers g = .ok iteration) (chain : g.Chain)
    (uniform : answers.Uniform)
    (together : ∀ p q, p < g.blocks.length → q < g.blocks.length →
      answers.moves p = answers.moves q)
    (empty : g.EdgesEmpty) : iteration.group.EdgesEmpty := by
  have step := Group.Step.iterate answers returns
  intro p i r' attached' inner
  rw [outputBuffers_of_shape step.shape] at inner
  cases attached : g.reader p i with
  | none =>
      have wiring := step.wiring p i
      rw [attached, attached'] at wiring
      cases wiring
  | some r =>
      obtain ⟨other, again, source⟩ := step.reader attached
      cases attached'.symm.trans again
      rw [source] at inner
      have drained := (Group.drained_iff attached).mpr (empty p i r attached inner)
      rw [← Group.drained_iff attached', step.sourceOf]
      cases reaches : passes answers g with
      | false =>
          rw [ledger_of_blocked returns reaches]
          exact drained
      | true =>
          rw [ledger_of_passes returns reaches]
          apply drained.post_of_eq_produced
          rw [Group.sourceOf_eq attached, consumed_eq_moves returns reaches chain uniform attached,
            published_eq_moves returns reaches chain uniform inner]
          obtain ⟨w, port, _⟩ := Option.bind_eq_some_iff.mp attached
          obtain ⟨b, present, _⟩ := Option.bind_eq_some_iff.mp port
          have bound := (List.getElem?_eq_some_iff.mp present).1
          exact together p _ bound (by omega)

end GraphExecutor

namespace Stage

open GraphExecutor

/-- A chain in lockstep stays a chain with empty internal buffers. -/
theorem tritonChain_step {keys : Nat → String} {s s' : Stage} {move : InferenceMove}
    (step : Step s move s') (chain : s.group.Chain ∧ s.group.EdgesEmpty)
    (lockstep : ∀ answers calls, move = .iterate answers calls →
      Lockstep keys answers calls s.group) : s'.group.Chain ∧ s'.group.EdgesEmpty := by
  cases step with
  | iterate suited returns =>
      have together := lockstep _ _ rfl
      exact ⟨chain.1.step (.iterate _ returns), edgesEmpty_iteration returns chain.1
        together.uniform together.together chain.2⟩
  | wait => exact chain
  | neighbours moved =>
      refine ⟨chain.1.step (.neighbours moved), fun p i r attached inner => ?_⟩
      rw [Group.reader, Group.input, moved.blocks] at attached
      rw [moved.blocks] at inner
      rw [moved.own _ inner]
      exact chain.2 p i r attached inner

/-- **Which iterations hand over.** In a run of a chain of triton blocks that
process the same number of items, from empty internal buffers, an iteration hands
over what it computes only if it computes nothing. -/
theorem handed_over_iff (keys : Nat → String) (s s' : Stage)
    (taken : List (Transition.Taken Stage InferenceMove)) (run : Transition.Run Step s taken s')
    (chain : s.group.TritonChain)
    (lockstep : ∀ t ∈ taken, ∀ answers calls, t.label = .iterate answers calls →
      Lockstep keys answers calls t.source.group) :
    ∀ t ∈ taken, ∀ answers calls, t.label = .iterate answers calls →
      (HandsOver answers calls t.source.group ↔ passes answers t.source.group = false) := by
  have along := run.invariant (fun s => s.group.Chain ∧ s.group.EdgesEmpty)
    ⟨chain.chain, chain.empty⟩ fun t member step before =>
      tritonChain_step step before (lockstep t member)
  intro t member answers calls label
  obtain ⟨chain, empty⟩ := (along.2 t member).1
  exact handsOver_iff chain empty (lockstep t member answers calls label)

/-! ## A chain of two adders -/

/-- The sum that the first block writes to buffer 2 is added to buffer 3. -/
def twoAdders : Group where
  blocks := [{ kind := .triton true
               inputs := [{ bufp := some ⟨0, 0, 0, 0⟩ }, { bufp := some ⟨1, 0, 0, 0⟩ }]
               outputs := [{ bufp := some 2 }] },
             { kind := .triton true
               inputs := [{ bufp := some ⟨2, 0, 0, 0⟩ }, { bufp := some ⟨3, 0, 0, 0⟩ }]
               outputs := [{ bufp := some 4 }] }]
  buffers := fun k => { bufSize := 24, totalWritten := if k = 2 ∨ k = 4 then 0 else 3 }

def adderKeys (k : Nat) : String :=
  ["/left", "/right", "/inner", "/other", "/sum"].getD k ""

/-- Three items are available in every buffer but the one between the blocks. -/
def adderInput (k : Nat) : BufferTritonReader where
  shmKey := adderKeys k
  itemSize := 4
  itemsAvailable := if k = 2 then 0 else 3
  readIndex := 0
  bytes := 96
  contiguous := by split <;> decide
  addressable := by decide

def adderOutput (k : Nat) : BufferTriton :=
  ⟨adderKeys k, 4, 24, 0, 96, by decide, by decide⟩

/-- The block at position `p` adds three items. -/
def adderCall (p : Nat) : TritonCall where
  block := adder
  inference := some {
    inBufs := [adderInput (2 * p), adderInput (2 * p + 1)]
    outBufs := [adderOutput (2 * p + 2)]
    noutputItems := 3
    outcome := .success
    items := by decide }
  report := ⟨.ok, fun _ => 3, fun _ => 3, fun _ => 3, fun _ => 3, true⟩
  reported := by
    apply TritonBlock.reported_of_works
    · rfl
    · rfl
    · rfl
    · exact fun _ => ⟨rfl, rfl⟩

private theorem twoAdders_chain : twoAdders.TritonChain := by
  refine ⟨⟨Nat.le_refl 2, ?_, ?_, ?_⟩, ?_, ?_⟩
  · intro p b present
    match p with
    | 0 | 1 => cases present; rfl
    | p + 2 => cases present
  · exact (by decide : [2, 4].Nodup)
  · intro p b present next
    match p with
    | 0 => cases present; exact ⟨0, _, rfl, List.mem_cons_self⟩
    | p + 1 => exact absurd next (by change ¬ p + 1 + 1 < 2; omega)
  · intro b member
    simp only [twoAdders, List.mem_cons, List.not_mem_nil, or_false] at member
    rcases member with rfl | rfl <;> exact ⟨true, rfl⟩
  · intro p i r attached inner
    match p, i with
    | 0, 0 | 0, 1 | 1, 1 => cases attached; exact absurd inner (by decide)
    | 1, 0 => cases attached; rfl
    | 0, i + 2 | 1, i + 2 | p + 2, i => cases attached

private theorem twoAdders_lockstep :
    Lockstep adderKeys (moving 3) (fun p => [adderCall p]) twoAdders := by
  refine ⟨fun p r listed => ?_, fun _ _ _ _ => rfl, fun p c member inference inferred => ?_⟩
  · cases List.mem_singleton.mp listed
    exact ⟨rfl, fun _ => ⟨rfl, rfl⟩⟩
  · cases List.mem_singleton.mp member
    cases inferred
    constructor
    · intro i r attached
      match p, i with
      | 0, 0 | 0, 1 | 1, 0 | 1, 1 => cases attached; exact ⟨_, rfl, rfl, rfl⟩
      | 0, i + 2 | 1, i + 2 | p + 2, i => cases attached
    · intro j k written
      match p, j with
      | 0, 0 | 1, 0 => cases written; exact ⟨_, rfl, rfl, rfl⟩
      | 0, j + 1 | 1, j + 1 | p + 2, j => cases written

private theorem twoAdders_suited : Suited (fun p => [adderCall p]) (moving 3) twoAdders := by
  intro p b async present kind
  match p with
  | 0 | 1 =>
      cases present
      cases kind
      refine ⟨rfl, fun c member => ?_⟩
      cases List.mem_singleton.mp member
      refine ⟨rfl, fun inference inferred => ?_⟩
      cases inferred
      exact ⟨rfl, by decide⟩
  | p + 2 => cases present

/-- The adders compute three items and have nothing to read in the next iteration:
only that one, which computes nothing, hands over. -/
theorem idle_iteration_hands_over : ∃ taken s', Transition.Run Step ⟨twoAdders, false⟩ taken s' ∧
    taken.length = 2 ∧ ∀ t ∈ taken, ∀ answers calls, t.label = .iterate answers calls →
      (HandsOver answers calls t.source.group ↔ passes answers t.source.group = false) := by
  let idle : Answers := { reports := fun _ => [] }
  have none (g : Group) : Suited (fun _ => []) idle g :=
    fun _ _ _ _ _ => ⟨rfl, fun _ absurd => (List.not_mem_nil absurd).elim⟩
  have run : Transition.Run Step ⟨twoAdders, false⟩ _ _ :=
    .cons (.iterate twoAdders_suited rfl) (.single (.iterate (none _) rfl))
  refine ⟨_, _, run, rfl, handed_over_iff adderKeys _ _ _ run twoAdders_chain ?_⟩
  intro t member answers calls label
  rcases List.mem_cons.mp member with rfl | member
  · cases label
    exact twoAdders_lockstep
  · cases List.mem_singleton.mp member
    cases label
    refine ⟨fun _ _ absurd => (List.not_mem_nil absurd).elim, fun _ _ _ _ => rfl,
      fun _ _ absurd => (List.not_mem_nil absurd).elim⟩

/-- The first adder computes 12 bytes; the second one's request names none of
them. -/
theorem inner_region_empty : ∃ s' computed named,
    Step ⟨twoAdders, false⟩ (.iterate (moving 3) fun p => [adderCall p]) s' ∧
    twoAdders.TritonChain ∧ Lockstep adderKeys (moving 3) (fun p => [adderCall p]) twoAdders ∧
    passes (moving 3) twoAdders = true ∧ (adderCall 0).request = some computed ∧
    computed.outputRegion 0 = some ⟨"/inner", 96, 0⟩ ∧ (adderCall 1).request = some named ∧
    named.inputRegion 0 = some ⟨"/inner", 0, 0⟩ ∧
    ¬ HandsOver (moving 3) (fun p => [adderCall p]) twoAdders := by
  have step : Step ⟨twoAdders, false⟩ (.iterate (moving 3) fun p => [adderCall p]) ⟨_, false⟩ :=
    .iterate twoAdders_suited rfl
  refine ⟨_, _, _, step, twoAdders_chain, twoAdders_lockstep, rfl, rfl, rfl, rfl, rfl, ?_⟩
  intro hands
  rw [handsOver_iff twoAdders_chain.chain twoAdders_chain.empty twoAdders_lockstep] at hands
  cases hands

end Stage

end TorchDsp
