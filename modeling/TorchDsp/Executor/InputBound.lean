import TorchDsp.Executor.Steps

/-! # The input counts and what is released

The input check clips the count of every port to what its own buffer holds, but
every port is then handed the count of the first one. The counts fit the ports
exactly when that count does, and blocks that consume no more than they are
handed then release only what their buffers hold
(`TorchDsp.GraphExecutor.handed_inputs_covered_iff`).
-/

namespace TorchDsp

/-- A count that the buffer of a reader holds and that its limit admits. -/
def Group.Covers (g : Group) (r : BufferReader) (n : Nat) : Prop :=
  n ≤ g.itemsAvailable r ∧ (0 < r.maxBufferRead → n ≤ r.maxBufferRead)

namespace GraphExecutor

/-- Every reader of the block at position `p` covers the count the block is
handed. -/
def InputsCovered (answers : Answers) (g : Group) (p : Nat) : Prop :=
  ∀ i r, g.reader p i = some r → g.Covers r (answers.handedInput g p)

/-- Every block that takes part in the iteration has its inputs covered. -/
def IterationCovered (answers : Answers) (g : Group) : Prop :=
  passes answers g = true →
    ∀ p b, g.blocks[p]? = some b → b.isHier = false → InputsCovered answers g p

private theorem placed_covered_iff {answers : Answers} {g : Group} {p : Nat} {wio : Block}
    (made : .placed p wio ∈ eventsOf (runOneIteration answers g)) :
    (∀ w ∈ wio.inputs, ∀ r, w.bufp = some r → g.Covers r w.nItems) ↔
      InputsCovered answers g p := by
  have placement := placed_iteration made
  constructor
  · intro covered i r attached
    rw [← placement.reader] at attached
    obtain ⟨w, listed, buffered⟩ := Option.bind_eq_some_iff.mp attached
    have member := List.mem_of_getElem? listed
    rw [← placement.inputs w member]
    exact covered w member r buffered
  · intro covered w member r buffered
    obtain ⟨i, listed⟩ := List.mem_iff_getElem?.mp member
    rw [placement.inputs w member]
    apply covered i r
    rw [← placement.reader, listed, Option.bind_some, buffered]

/-- An iteration with covered inputs releases only unread items. -/
theorem consumed_le_unread {answers : Answers} {g : Group} {iteration : Iteration}
    (returns : runOneIteration answers g = .ok iteration) (reaches : passes answers g = true)
    (idle : g.Idle) (reads : ReadsWithin answers g) (covered : IterationCovered answers g)
    (port : Nat × Nat) : answers.consumed g port ≤ g.ledger.unread g.sourceOf port := by
  obtain ⟨p, i⟩ := port
  cases attached : g.reader p i with
  | none =>
      rw [answers.consumed_of_no_reader g attached]
      exact Nat.zero_le _
  | some r =>
      rcases consumed_le_handed returns reaches idle reads attached with
        none | ⟨⟨b, present, part⟩, bounded⟩
      · rw [none]
        exact Nat.zero_le _
      · rw [Group.ledger_unread attached]
        exact Nat.le_trans bounded (covered reaches p b present part i r attached).1

/-- What one move does to the readers of a group. -/
theorem released_le_of_step {g g' : Group} {move : Move} (step : g.Step move g') (idle : g.Idle)
    (within : ∀ port, g.ledger.Within g.sourceOf port)
    (meets : ∀ answers, move = .iterate answers →
      ReadsWithin answers g ∧ IterationCovered answers g) (port : Nat × Nat) :
    g'.ledger.released port ≤ g.ledger.published (g.sourceOf port) ∧
      g'.ledger.Within g'.sourceOf port := by
  rw [step.sourceOf]
  cases step with
  | neighbours moved =>
      refine ⟨?_, (within port).mono (congrFun moved.released port) (moved.grown _)⟩
      rw [moved.released]
      exact within port
  | @iterate answers iteration returns =>
      cases reaches : passes answers g with
      | false =>
          rw [ledger_of_blocked returns reaches]
          exact ⟨within port, within port⟩
      | true =>
          obtain ⟨reads, covered⟩ := meets answers rfl
          have bounded := consumed_le_unread returns reaches idle reads covered port
          have released : (g.ledger.post (answers.consumed g) (answers.published g)).released port ≤
              g.ledger.published (g.sourceOf port) := (within port).released_post_le bounded
          rw [ledger_of_passes returns reaches]
          refine ⟨released, Nat.le_trans released ?_⟩
          rw [Ledger.published_post]
          exact Nat.le_add_right _ _

/-- **Input counts and releases.** The count placed on every port of a block fits
that port exactly when the count of the first port does. In a run whose
iterations have their inputs covered and whose blocks consume at most what they
are handed, no reader is advanced past the items its buffer holds. -/
theorem handed_inputs_covered_iff (g : Group) :
    (∀ answers p wio, .placed p wio ∈ eventsOf (runOneIteration answers g) →
      ((∀ w ∈ wio.inputs, ∀ r, w.bufp = some r → g.Covers r w.nItems) ↔
        InputsCovered answers g p)) ∧
    ∀ taken g', Transition.Run Group.Step g taken g' → g.Idle →
      (∀ port, g.ledger.Within g.sourceOf port) →
      (∀ t ∈ taken, ∀ answers, t.label = .iterate answers →
        ReadsWithin answers t.source ∧ IterationCovered answers t.source) →
      (∀ t ∈ taken, ∀ port,
        t.target.ledger.released port ≤ t.source.ledger.published (t.source.sourceOf port)) ∧
      ∀ port, g'.ledger.Within g'.sourceOf port := by
  refine ⟨fun answers p wio made => placed_covered_iff made, ?_⟩
  intro taken g' run idle within meets
  have along := run.invariant
    (fun g => g.Idle ∧ ∀ port, g.ledger.Within g.sourceOf port) ⟨idle, within⟩
    fun t member step holds => ⟨step.idle holds.1, fun port =>
      (released_le_of_step step holds.1 holds.2 (meets t member) port).2⟩
  refine ⟨fun t member port => ?_, along.1.2⟩
  obtain ⟨idle, within⟩ := (along.2 t member).1
  exact (released_le_of_step (run.step_of_mem t member) idle within (meets t member) port).1

/-- With as many items at both ports, an iteration releases what is there. -/
theorem equal_inputs_within :
    (∃ wio, .placed 0 wio ∈ eventsOf (runOneIteration (moving 4) (twoInputs 4 4)) ∧
      ∀ w ∈ wio.inputs, ∀ r, w.bufp = some r → (twoInputs 4 4).Covers r w.nItems) ∧
    ∃ g', Transition.Run Group.Step (twoInputs 4 4)
      [⟨twoInputs 4 4, .iterate (moving 4), g'⟩] g' ∧
      g'.ledger.released (0, 1) = 4 ∧ ∀ port, g'.ledger.Within g'.sourceOf port := by
  have covered : InputsCovered (moving 4) (twoInputs 4 4) 0 := by
    intro i r attached
    match i with
    | 0 | 1 => cases attached; exact ⟨Nat.le_refl 4, fun absurd => by cases absurd⟩
    | i + 2 => cases attached
  obtain ⟨wio, made⟩ : ∃ wio, .placed 0 wio ∈
      eventsOf (runOneIteration (moving 4) (twoInputs 4 4)) := ⟨_, List.Mem.head _⟩
  refine ⟨⟨wio, made, ((handed_inputs_covered_iff _).1 _ _ _ made).2 covered⟩, ?_⟩
  have run := Transition.Run.single (@Group.Step.iterate (twoInputs 4 4) (moving 4) _ rfl)
  refine ⟨_, run, rfl, ((handed_inputs_covered_iff _).2 _ _ run ?_ ?_ ?_).2⟩
  · exact idle_of_plain (by decide)
  · intro port
    rw [Ledger.Within, Group.released_of_unmoved]
    · exact Nat.zero_le _
    · intro b member w listed r buffered
      cases List.mem_singleton.mp member
      simp only [List.mem_cons, List.not_mem_nil, or_false] at listed
      rcases listed with rfl | rfl <;> cases buffered <;> rfl
  · intro t member answers label
    cases List.mem_singleton.mp member
    cases label
    refine ⟨readsWithin_moving fun p => ?_, fun _ p b present part => ?_⟩
    · cases p <;> exact Nat.le_refl 4
    · cases p with
      | zero => exact covered
      | succ p => cases present

/-- With eight items at the first port and four at the second, the second is
handed eight as well, and the block releases eight of its four items. -/
theorem second_input_overread :
    ∃ wio iteration, .placed 0 wio ∈ eventsOf (runOneIteration (moving 8) (twoInputs 8 4)) ∧
      (∃ w ∈ wio.inputs, ∃ r, w.bufp = some r ∧ (twoInputs 8 4).itemsAvailable r < w.nItems) ∧
      runOneIteration (moving 8) (twoInputs 8 4) = .ok iteration ∧
      ReadsWithin (moving 8) (twoInputs 8 4) ∧
      ¬ iteration.group.ledger.Within iteration.group.sourceOf (0, 1) := by
  refine ⟨_, _, List.Mem.head _, ⟨⟨some ⟨1, 0, 0, 0⟩, 8, 0⟩, List.Mem.tail _ (List.Mem.head _), _,
    rfl, by decide⟩, rfl, readsWithin_moving fun p => ?_, by decide⟩
  cases p <;> exact Nat.le_refl 8

end GraphExecutor

end TorchDsp
