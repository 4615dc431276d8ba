import Mathlib.Data.List.Nodup
import TorchDsp.Executor.Steps

/-! # Item accounting along a chain

In a chain every block reads a buffer that the block before it writes. The
commit phase releases what each block consumed, but publishes on every output
what the last block produced. When each block reports one count for all its
ports, the totals follow the reports exactly when every block that writes a
buffer reports what the last one does, and no reader of an internal buffer then
passes its writer (`TorchDsp.GraphExecutor.chain_commits_exactly_iff`).
-/

namespace TorchDsp

/-- The count that the block at position `p` reports. -/
def Answers.moves (answers : Answers) (p : Nat) : Nat :=
  (answers.reports p).head?.elim 0 fun r => r.produced 0

/-- Every call of `do_work` returns `OK` and reports one count at all ports. -/
def Answers.Uniform (answers : Answers) : Prop :=
  ∀ p, ∀ r ∈ answers.reports p, r.ret = .ok ∧
    ∀ i, r.consumed i = answers.moves p ∧ r.produced i = answers.moves p

namespace Group

/-- A chain of blocks that all take part, with one writer for every buffer. -/
structure Chain (g : Group) : Prop where
  several : 2 ≤ g.blocks.length
  plain : ∀ (p : Nat) (b : Block), g.blocks[p]? = some b → b.isHier = false
  separate : (GraphExecutor.outputBuffers g.blocks).Nodup
  linked : ∀ (p : Nat) (b : Block), g.blocks[p]? = some b → p + 1 < g.blocks.length →
    ∃ i r, g.reader (p + 1) i = some r ∧ r.source ∈ b.writes

/-- No reader of an internal buffer has passed its writer. -/
def EdgesWithin (g : Group) : Prop :=
  ∀ p i r, g.reader p i = some r → r.source ∈ GraphExecutor.outputBuffers g.blocks →
    r.totalRead ≤ (g.buffers r.source).totalWritten

variable {g g' : Group} {move : Move}

/-- A step keeps the blocks of a chain and their writers. -/
theorem Chain.step (chain : g.Chain) (step : g.Step move g') : g'.Chain := by
  refine ⟨?_, fun p b' present => ?_, ?_, fun p b' present next => ?_⟩
  · rw [step.length_eq]
    exact chain.several
  · obtain ⟨b, here, hier, _⟩ := step.block present
    rw [← hier]
    exact chain.plain p b here
  · rw [GraphExecutor.outputBuffers_of_shape step.shape]
    exact chain.separate
  · obtain ⟨b, here, _, writes⟩ := step.block present
    rw [step.length_eq] at next
    obtain ⟨i, r, attached, written⟩ := chain.linked p b here next
    obtain ⟨r', attached', source⟩ := step.reader attached
    refine ⟨i, r', attached', ?_⟩
    rw [source, ← writes]
    exact written

/-- Every block but the last writes a buffer. -/
theorem Chain.writes_ne_nil (chain : g.Chain) {p : Nat} {b : Block}
    (present : g.blocks[p]? = some b) (next : p + 1 < g.blocks.length) : b.writes ≠ [] := by
  obtain ⟨_, _, _, written⟩ := chain.linked p b present next
  exact List.ne_nil_of_mem written

private theorem edgesWithin_iff :
    g.EdgesWithin ↔ ∀ port, g.sourceOf port ∈ GraphExecutor.outputBuffers g.blocks →
      g.ledger.Within g.sourceOf port := by
  constructor
  · rintro edges ⟨p, i⟩ inner
    cases attached : g.reader p i with
    | none => exact within_of_no_reader attached
    | some r =>
        rw [sourceOf_eq attached] at inner
        exact (within_iff attached).mpr (edges p i r attached inner)
  · intro within p i r attached inner
    rw [← within_iff attached]
    apply within (p, i)
    rwa [sourceOf_eq attached]

end Group

namespace GraphExecutor

/-- Every block that writes a buffer reports the count of the last one. -/
def Balanced (answers : Answers) (g : Group) : Prop :=
  ∀ (p : Nat) (b : Block), g.blocks[p]? = some b → b.writes ≠ [] →
    answers.moves p = answers.moves (g.blocks.length - 1)

/-- From `g` to `g'`, every buffer a block writes grows by what that block
reports, and every reader advances by what its own block reports. Blocks report
nothing in an iteration that fails a readiness check. -/
structure CommitsExactly (answers : Answers) (g g' : Group) : Prop where
  published : ∀ (p : Nat) (b : Block), g.blocks[p]? = some b → ∀ k ∈ b.writes,
    g'.ledger.published k =
      g.ledger.published k + if passes answers g then answers.moves p else 0
  released : ∀ p i r, g.reader p i = some r →
    g'.ledger.released (p, i) =
      g.ledger.released (p, i) + if passes answers g then answers.moves p else 0

section Iterations

variable {answers : Answers} {g : Group} {iteration : Iteration}

private theorem moves_of_final (uniform : answers.Uniform) {count p : Nat} {r : WorkReport}
    (last : answers.final count p = some r) (i : Nat) :
    r.consumed i = answers.moves p ∧ r.produced i = answers.moves p :=
  (uniform p r (List.mem_of_find?_eq_some last)).2 i

/-- With one count at all ports, a reader moves on by the count of its block. -/
theorem consumed_eq_moves (returns : runOneIteration answers g = .ok iteration)
    (reaches : passes answers g = true) (chain : g.Chain) (uniform : answers.Uniform) {p i : Nat}
    {r : BufferReader} (attached : g.reader p i = some r) :
    answers.consumed g (p, i) = answers.moves p := by
  obtain ⟨w, port, buffered⟩ := Option.bind_eq_some_iff.mp attached
  obtain ⟨b, present, here⟩ := Option.bind_eq_some_iff.mp port
  have part := chain.plain p b present
  obtain ⟨report, _, last, _⟩ := calls_of_passes returns reaches present part
  rw [answers.consumed_of_final g present here (by rw [buffered]; rfl) part last]
  exact (moves_of_final uniform last i).1

/-- A commit publishes the count of the last block. -/
theorem published_eq_moves (returns : runOneIteration answers g = .ok iteration)
    (reaches : passes answers g = true) (chain : g.Chain) (uniform : answers.Uniform) {k : Nat}
    (written : k ∈ outputBuffers g.blocks) :
    answers.published g k = answers.moves (g.blocks.length - 1) := by
  obtain ⟨last, atEnd, outputs⟩ := last_of_passes returns reaches
  have present : g.blocks[g.blocks.length - 1]? = some last := by
    rw [← List.getLast?_eq_getElem?, atEnd]
  have part := chain.plain _ last present
  obtain ⟨report, _, final, _⟩ := calls_of_passes returns reaches present part
  rw [Answers.published, answers.lastProduced_of_final g atEnd outputs part final,
    List.count_eq_one_of_mem chain.separate written, Nat.mul_one]
  exact (moves_of_final uniform final 0).2

/-- What one iteration commits. -/
theorem commitsExactly_iff (returns : runOneIteration answers g = .ok iteration)
    (chain : g.Chain) (uniform : answers.Uniform) :
    CommitsExactly answers g iteration.group ↔ (passes answers g = true → Balanced answers g) := by
  have member {p : Nat} {b : Block} {k : Nat} (present : g.blocks[p]? = some b)
      (written : k ∈ b.writes) : k ∈ outputBuffers g.blocks :=
    List.mem_flatMap.mpr ⟨b, List.mem_of_getElem? present, written⟩
  cases reaches : passes answers g with
  | false =>
      refine ⟨fun _ absurd => (Bool.false_ne_true absurd).elim, fun _ => ⟨?_, ?_⟩⟩
      · intro p b present k written
        rw [ledger_of_blocked returns reaches, reaches]
        rfl
      · intro p i r attached
        rw [ledger_of_blocked returns reaches, reaches]
        rfl
  | true =>
      constructor
      · intro exact _ p b present writes
        obtain ⟨k, written⟩ := List.exists_mem_of_ne_nil _ writes
        have grown := exact.published p b present k written
        rw [ledger_of_passes returns reaches, Ledger.published_post, if_pos reaches,
          published_eq_moves returns reaches chain uniform (member present written)] at grown
        omega
      · intro balanced
        refine ⟨?_, ?_⟩
        · intro p b present k written
          rw [ledger_of_passes returns reaches, Ledger.published_post, if_pos reaches,
            published_eq_moves returns reaches chain uniform (member present written),
            balanced rfl p b present (List.ne_nil_of_mem written)]
        · intro p i r attached
          rw [ledger_of_passes returns reaches, Ledger.released_post, if_pos reaches,
            consumed_eq_moves returns reaches chain uniform attached]

/-- A balanced iteration keeps every reader behind its writer. -/
theorem edgesWithin_iteration (returns : runOneIteration answers g = .ok iteration)
    (chain : g.Chain) (uniform : answers.Uniform)
    (balanced : passes answers g = true → Balanced answers g) (edges : g.EdgesWithin) :
    iteration.group.EdgesWithin := by
  have step := Group.Step.iterate answers returns
  rw [Group.edgesWithin_iff] at edges ⊢
  rw [step.sourceOf, outputBuffers_of_shape step.shape]
  intro port inner
  cases reaches : passes answers g with
  | false =>
      rw [ledger_of_blocked returns reaches]
      exact edges port inner
  | true =>
      rw [ledger_of_passes returns reaches]
      apply (edges port inner).post_of_le_produced
      rw [published_eq_moves returns reaches chain uniform inner]
      obtain ⟨p, i⟩ := port
      cases attached : g.reader p i with
      | none =>
          rw [answers.consumed_of_no_reader g attached]
          exact Nat.zero_le _
      | some r =>
          rw [consumed_eq_moves returns reaches chain uniform attached]
          obtain ⟨w, port, _⟩ := Option.bind_eq_some_iff.mp attached
          obtain ⟨b, present, _⟩ := Option.bind_eq_some_iff.mp port
          -- The last block reports the count that is published; any other writes a buffer.
          by_cases next : p + 1 < g.blocks.length
          · exact Nat.le_of_eq (balanced reaches p b present (chain.writes_ne_nil present next))
          · have bound := (List.getElem?_eq_some_iff.mp present).1
            have atEnd : p = g.blocks.length - 1 := by omega
            exact Nat.le_of_eq (congrArg answers.moves atEnd)

end Iterations

/-- **Accounting along a chain.** -/
theorem chain_commits_exactly_iff (g : Group) (taken : List (Transition.Taken Group Move))
    (g' : Group) (run : Transition.Run Group.Step g taken g') (chain : g.Chain)
    (empty : ∀ p i r, g.reader p i = some r → r.source ∈ outputBuffers g.blocks →
      r.totalRead = (g.buffers r.source).totalWritten)
    (uniform : ∀ t ∈ taken, ∀ answers, t.label = .iterate answers → answers.Uniform) :
    (∀ t ∈ taken, t.target.EdgesWithin ∧
      ∀ answers, t.label = .iterate answers → CommitsExactly answers t.source t.target) ↔
    ∀ t ∈ taken, ∀ answers, t.label = .iterate answers → passes answers t.source = true →
      Balanced answers t.source := by
  have chains := run.invariant Group.Chain chain fun _ _ step chain => chain.step step
  have exactly (t : Transition.Taken Group Move) (member : t ∈ taken) (answers : Answers)
      (label : t.label = .iterate answers) : CommitsExactly answers t.source t.target ↔
        (passes answers t.source = true → Balanced answers t.source) := by
    have step := run.step_of_mem t member
    have here := (chains.2 t member).1
    have counts := uniform t member answers label
    obtain ⟨source, move, target⟩ := t
    cases label
    cases step with
    | iterate answers returns => exact commitsExactly_iff returns here counts
  constructor
  · intro holds t member answers label
    exact (exactly t member answers label).mp ((holds t member).2 answers label)
  · intro balanced
    have start : g.EdgesWithin := fun p i r attached inner =>
      Nat.le_of_eq (empty p i r attached inner)
    have along := run.invariant (fun g => g.Chain ∧ g.EdgesWithin) ⟨chain, start⟩ ?_
    · intro t member
      exact ⟨(along.2 t member).2.2, fun answers label =>
        (exactly t member answers label).mpr (balanced t member answers label)⟩
    · intro t member step holds
      refine ⟨holds.1.step step, ?_⟩
      have counts := uniform t member
      have condition := balanced t member
      obtain ⟨source, move, target⟩ := t
      cases step with
      | iterate answers returns =>
          exact edgesWithin_iteration returns holds.1 (counts answers rfl)
            (condition answers rfl) holds.2
      | neighbours moved =>
          intro p i r attached inner
          rw [Group.reader, Group.input, moved.blocks] at attached
          rw [moved.blocks] at inner
          exact Nat.le_trans (holds.2 p i r attached inner) (moved.grown _)

/-- The first block moves `first` items, the others `second`. -/
def uneven (first second : Nat) : Answers where
  reports := fun p =>
    let n := if p = 0 then first else second
    [⟨.ok, fun _ => n, fun _ => n, fun _ => n, fun _ => n, true⟩]

private theorem uneven_uniform (first second : Nat) : (uneven first second).Uniform := by
  intro p r listed
  cases List.mem_singleton.mp listed
  exact ⟨rfl, fun i => ⟨rfl, rfl⟩⟩

private theorem twoBlocks_chain (items inner : Nat) : (twoBlocks items inner).Chain := by
  refine ⟨Nat.le_refl 2, ?_, ?_, ?_⟩
  · intro p b present
    match p with
    | 0 | 1 => cases present; rfl
    | p + 2 => cases present
  · exact (by decide : [1, 2].Nodup)
  · intro p b present next
    match p with
    | 0 => cases present; exact ⟨0, _, rfl, List.mem_cons_self⟩
    | p + 1 => exact absurd next (by change ¬ p + 1 + 1 < 2; omega)

private theorem twoBlocks_empty (items inner : Nat) : ∀ p i r,
    (twoBlocks items inner).reader p i = some r →
      r.source ∈ outputBuffers (twoBlocks items inner).blocks →
        r.totalRead = ((twoBlocks items inner).buffers r.source).totalWritten := by
  intro p i r attached written
  match p, i with
  | 0, 0 => cases attached; exact absurd written (by change ¬ 0 ∈ [1, 2]; decide)
  | 1, 0 => cases attached; rfl
  | 0, i + 1 | 1, i + 1 | p + 2, i => cases attached

/-- Two blocks that move four items each commit exactly what they moved. -/
theorem even_chain_exact :
    ∃ g', Transition.Run Group.Step (twoBlocks 4 16)
      [⟨twoBlocks 4 16, .iterate (uneven 4 4), g'⟩] g' ∧ g'.EdgesWithin ∧
      CommitsExactly (uneven 4 4) (twoBlocks 4 16) g' := by
  have run := Transition.Run.single (@Group.Step.iterate (twoBlocks 4 16) (uneven 4 4) _ rfl)
  have exact := (chain_commits_exactly_iff _ _ _ run (twoBlocks_chain 4 16) (twoBlocks_empty 4 16)
    ?_).mpr ?_ _ List.mem_cons_self
  · exact ⟨_, run, exact.1, exact.2 _ rfl⟩
  · intro t member answers label
    cases List.mem_singleton.mp member
    cases label
    exact uneven_uniform 4 4
  · intro t member answers label _ p b present _
    cases List.mem_singleton.mp member
    cases label
    match p with
    | 0 | 1 => rfl
    | p + 2 => cases present

/-- The first block reports eight items and the second four: the buffer between
them grows by four, so four of the items the first block computed are lost. -/
theorem uneven_chain_miscounts :
    ∃ g', Transition.Run Group.Step (twoBlocks 8 16)
      [⟨twoBlocks 8 16, .iterate (uneven 8 4), g'⟩] g' ∧ (twoBlocks 8 16).Chain ∧
      (uneven 8 4).Uniform ∧ ReadsWithin (uneven 8 4) (twoBlocks 8 16) ∧
      WritesWithin (uneven 8 4) (twoBlocks 8 16) ∧ (uneven 8 4).moves 0 = 8 ∧
      g'.ledger.published 1 = 4 ∧ ¬ CommitsExactly (uneven 8 4) (twoBlocks 8 16) g' := by
  have run := Transition.Run.single (@Group.Step.iterate (twoBlocks 8 16) (uneven 8 4) _ rfl)
  refine ⟨_, run, twoBlocks_chain 8 16, uneven_uniform 8 4, readsWithin_of_reports ?_,
    writesWithin_of_reports ?_, rfl, rfl, fun exact => ?_⟩
  · intro p r listed i
    cases List.mem_singleton.mp listed
    cases p with
    | zero => exact Nat.le_refl 8
    | succ p => exact (by decide : 4 ≤ 8)
  · intro p r listed i
    cases List.mem_singleton.mp listed
    cases p with
    | zero => exact (by decide : 8 ≤ 16)
    | succ p => exact (by decide : 4 ≤ 16)
  · have grown := exact.published 0 _ rfl 1 List.mem_cons_self
    exact absurd grown (by decide)

end GraphExecutor

end TorchDsp
