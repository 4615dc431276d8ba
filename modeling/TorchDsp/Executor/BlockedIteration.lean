import TorchDsp.Executor.Steps

/-! # Iterations that end blocked

An iteration that fails a readiness check commits nothing. One whose last block
lacks items goes on to the commit phase all the same: it moves no item exactly
when the reports of all blocks leave nothing to commit
(`TorchDsp.GraphExecutor.blocked_keeps_totals_iff`).
-/

namespace TorchDsp

namespace GraphExecutor

/-- The last block's call of `do_work` lacks items. -/
def LastLacksItems (answers : Answers) (g : Group) : Prop :=
  ∃ last r, g.blocks.getLast? = some last ∧ last.isHier = false ∧
    answers.final g.blocks.length (g.blocks.length - 1) = some r ∧
    (r.ret = .insufficientInputItems ∨ r.ret = .insufficientOutputItems)

/-- The final reports consume nothing at ports with a buffer, and the ports of
blocks that are passed over hold no count. -/
structure NothingConsumed (answers : Answers) (g : Group) : Prop where
  reports : ∀ p b r, g.blocks[p]? = some b → b.isHier = false →
    answers.final g.blocks.length p = some r → ∀ i, (g.reader p i).isSome → r.consumed i = 0
  passedOver : ∀ b ∈ g.blocks, b.isHier = true → ∀ w ∈ b.inputs, w.bufp.isSome → w.nConsumed = 0

/-- Nothing is consumed and, if the group writes any buffer, the last block's
final report produced nothing. -/
structure NothingReported (answers : Answers) (g : Group) : Prop where
  consumed : NothingConsumed answers g
  produced : outputBuffers g.blocks ≠ [] →
    ∀ r, answers.final g.blocks.length (g.blocks.length - 1) = some r → r.produced 0 = 0

private theorem consumed_eq_zero_iff {answers : Answers} {g : Group} {iteration : Iteration}
    (returns : runOneIteration answers g = .ok iteration) (reaches : passes answers g = true) :
    (∀ port, answers.consumed g port = 0) ↔ NothingConsumed answers g := by
  constructor
  · intro none
    refine ⟨fun p b r present part last i attached => ?_, fun b member hier w listed buffered => ?_⟩
    · obtain ⟨reader, attached⟩ := Option.isSome_iff_exists.mp attached
      obtain ⟨w, port, buffered⟩ := Option.bind_eq_some_iff.mp attached
      rw [Group.input, present, Option.bind_some] at port
      rw [← answers.consumed_of_final g present port (by rw [buffered]; rfl) part last, none]
    · obtain ⟨p, present⟩ := List.mem_iff_getElem?.mp member
      obtain ⟨i, port⟩ := List.mem_iff_getElem?.mp listed
      rw [← answers.consumed_of_hier g present port buffered hier, none]
  · rintro ⟨reports, passedOver⟩ ⟨p, i⟩
    cases attached : g.reader p i with
    | none => exact answers.consumed_of_no_reader g attached
    | some reader =>
        obtain ⟨w, port, buffered⟩ := Option.bind_eq_some_iff.mp attached
        obtain ⟨b, present, here⟩ := Option.bind_eq_some_iff.mp port
        have some : w.bufp.isSome = true := by rw [buffered]; rfl
        cases hier : b.isHier with
        | true =>
            rw [answers.consumed_of_hier g present here some hier]
            exact passedOver b (List.mem_of_getElem? present) hier w
              (List.mem_of_getElem? here) some
        | false =>
            obtain ⟨r, _, last, _⟩ := calls_of_passes returns reaches present hier
            rw [answers.consumed_of_final g present here some hier last]
            exact reports p b r present hier last i (by rw [attached]; rfl)

/-- **What a blocked iteration moves.** -/
theorem blocked_keeps_totals_iff (answers : Answers) (g : Group) (iteration : Iteration)
    (returns : runOneIteration answers g = .ok iteration)
    (blocked : passes answers g = false ∨ LastLacksItems answers g) :
    iteration.group.ledger = g.ledger ↔
      passes answers g = false ∨ NothingReported answers g := by
  cases reaches : passes answers g with
  | false =>
      rw [ledger_of_blocked returns reaches]
      exact ⟨fun _ => Or.inl rfl, fun _ => rfl⟩
  | true =>
      rw [reaches] at blocked
      obtain ⟨last, r, atEnd, part, final, _⟩ := blocked.resolve_left Bool.noConfusion
      obtain ⟨last', atEnd', outputs⟩ := last_of_passes returns reaches
      rw [atEnd] at atEnd'
      cases atEnd'
      have published : (∀ k, answers.published g k = 0) ↔
          (outputBuffers g.blocks ≠ [] → r.produced 0 = 0) := by
        unfold Answers.published
        rw [answers.lastProduced_of_final g atEnd outputs part final]
        constructor
        · intro none written
          obtain ⟨k, member⟩ := List.exists_mem_of_ne_nil _ written
          have occurs := List.count_pos_iff.mpr member
          exact (Nat.mul_eq_zero.mp (none k)).resolve_right (Nat.ne_of_gt occurs)
        · intro produced k
          by_cases written : outputBuffers g.blocks = []
          · rw [written, List.count_nil, Nat.mul_zero]
          · rw [produced written, Nat.zero_mul]
      rw [ledger_of_passes returns reaches, Ledger.post_eq_self_iff,
        consumed_eq_zero_iff returns reaches, published]
      constructor
      · rintro ⟨consumed, produced⟩
        refine Or.inr ⟨consumed, fun written r' final' => ?_⟩
        rw [final] at final'
        cases final'
        exact produced written
      · rintro (absurd | nothing)
        · cases absurd
        · exact ⟨nothing.consumed, fun written => nothing.produced written r final⟩

/-- The first block moves `n` items; the second lacks items. -/
def lacking (n : Nat) : Answers where
  reports := fun p =>
    if p = 0 then [⟨.ok, fun _ => n, fun _ => n, fun _ => n, fun _ => n, true⟩]
    else [⟨.insufficientInputItems, fun _ => 0, fun _ => 0, fun _ => 0, fun _ => 0, false⟩]

/-- An iteration in which no block moves an item ends blocked and leaves the totals. -/
theorem idle_blocks_keep_totals :
    ∃ iteration, runOneIteration (lacking 0) (twoBlocks 4 16) = .ok iteration ∧
      iteration.status = .blkdIn ∧ iteration.group.ledger = (twoBlocks 4 16).ledger := by
  refine ⟨_, rfl, rfl, (blocked_keeps_totals_iff (lacking 0) (twoBlocks 4 16) _ rfl
    (Or.inr ⟨_, _, rfl, rfl, rfl, Or.inl rfl⟩)).2 (Or.inr ⟨⟨?_, ?_⟩, ?_⟩)⟩
  · intro p b r present _ last i _
    match p with
    | 0 | 1 => cases last; rfl
    | p + 2 => cases present
  · decide
  · intro _ r last
    cases last
    rfl

/-- The first block's four items are released, and what it computed from them is
not published. -/
theorem blocked_iteration_loses_items :
    ∃ iteration, runOneIteration (lacking 4) (twoBlocks 4 16) = .ok iteration ∧
      LastLacksItems (lacking 4) (twoBlocks 4 16) ∧ iteration.status = .blkdIn ∧
      iteration.group.ledger.released (0, 0) = 4 ∧
      iteration.group.ledger.published 1 = (twoBlocks 4 16).ledger.published 1 :=
  ⟨_, rfl, ⟨_, _, rfl, rfl, rfl, Or.inl rfl⟩, rfl, rfl, rfl⟩

end GraphExecutor

end TorchDsp
