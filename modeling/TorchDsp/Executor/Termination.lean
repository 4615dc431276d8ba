import TorchDsp.Executor.OutputBound
import TorchDsp.Executor.Waiting

/-! # Blocks that answer alike

While the ports and buffers of a block stay as they are, `do_work` returns the
same status again. Only some statuses leave the inner loop, and fewer do for the
blocks before the last. The last block is also waited for, and its callback comes only
when the client has taken on a request. The inner loops end exactly where no block is
called again for ever and the last one is not waited for in vain
(`TorchDsp.GraphExecutor.inner_loops_end_iff`).
-/

namespace TorchDsp

/-- Whether the inner loop ends with a status. -/
def WorkReturn.leaves (isLast : Bool) : WorkReturn → Bool
  | .ok | .done => true
  | .insufficientInputItems | .insufficientOutputItems => isLast
  | .other _ => false

private theorem WorkReport.leaves_eq (isLast : Bool) (r : WorkReport) :
    r.leaves isLast = r.ret.leaves isLast :=
  rfl

/-- The answers of blocks that return the same status on every call. -/
structure SteadyWork where
  /-- What the block at a position returns. -/
  ret : Nat → WorkReturn
  /-- Whether the client takes on a request in a call of the block at a position. -/
  accepts : Nat → Nat → Bool
  /-- What the block at a position answers to each of its calls. -/
  report : Nat → Nat → WorkReport
  same : ∀ position call, (report position call).ret = ret position
  /-- The callbacks of accepted requests are made, and no others. -/
  calledBack : ∀ position call, (report position call).calledBack = accepts position call

/-- What the loop over the blocks does with a block that has its counts: of the last one
it needs the interface for the callback before it calls `do_work`. -/
def GraphExecutor.innerLoop (isLast : Bool) (position : Nat) (b placed : Block) (l : Loop)
    (reports : List WorkReport) : Except Abort (Block × Loop) :=
  if isLast && !b.isAsyncBlock then .error ⟨.notAsync, l.events⟩
  else blockLoop isLast position placed l reports

namespace SteadyWork

/-- The answers to the first `calls` calls of each block. -/
def reports (work : SteadyWork) (calls position : Nat) : List WorkReport :=
  (List.range calls).map (work.report position)

private theorem ret_of_mem {work : SteadyWork} {calls position : Nat} {r : WorkReport}
    (listed : r ∈ work.reports calls position) : r.ret = work.ret position := by
  obtain ⟨call, _, rfl⟩ := List.mem_map.mp listed
  exact work.same position call

/-- Every block that takes part leaves its inner loop after some number of calls,
whatever counts it is handed. -/
def InnerLoopsEnd (work : SteadyWork) (g : Group) : Prop :=
  ∀ p b, g.blocks[p]? = some b → b.isHier = false → ∀ inItems outItems l, ∃ calls after,
    GraphExecutor.innerLoop (p + 1 == g.blocks.length) p b (b.place inItems outItems) l
      (work.reports calls p) = .ok after

/-- The last block can be called back, and where it is waited for, the client takes on
a request in its call. -/
structure Answered (work : SteadyWork) (b : Block) (position : Nat) : Prop where
  async : b.isAsyncBlock = true
  accepts : work.ret position = .ok ∨ work.ret position = .done → work.accepts position 0 = true

/-- Every block that takes part returns a status that leaves the inner loop at
its place, and the last one is answered. -/
def Leaves (work : SteadyWork) (g : Group) : Prop :=
  ∀ p b, g.blocks[p]? = some b → b.isHier = false →
    (work.ret p).leaves (p + 1 == g.blocks.length) = true ∧
      (p + 1 = g.blocks.length → work.Answered b p)

end SteadyWork

namespace GraphExecutor

/-- An inner loop goes on exactly as long as no answer ends it. -/
theorem blockLoop_spins_iff {isLast : Bool} {position : Nat} {b : Block} {l : Loop}
    {reports : List WorkReport} :
    (∃ events, blockLoop isLast position b l reports = .error ⟨.spinning, events⟩) ↔
      ∀ r ∈ reports, r.leaves isLast = false := by
  induction reports generalizing b l with
  | nil => exact ⟨fun _ r absurd => (List.not_mem_nil absurd).elim, fun _ => ⟨l.events, rfl⟩⟩
  | cons r rest ih =>
      rw [blockLoop, List.forall_mem_cons, ← @ih (b.report r) (l.log (.doWork position r))]
      unfold WorkReport.leaves
      cases code : r.ret with
      | ok | done =>
          simp only [Bool.true_eq_false, false_and, iff_false]
          rintro ⟨events, stuck⟩
          split at stuck <;> cases stuck
      | insufficientInputItems | insufficientOutputItems => cases isLast <;> simp
      | other value => simp

/-- An inner loop ends with a first answer that leaves it, unless the answer is waited
for in vain. -/
theorem blockLoop_of_leaves {isLast : Bool} {position : Nat} {b : Block} {l : Loop}
    {r : WorkReport} {rest : List WorkReport} (leaves : r.leaves isLast = true)
    (called : isLast = true → r.ret = .ok ∨ r.ret = .done → r.calledBack = true) :
    ∃ after, blockLoop isLast position b l (r :: rest) = .ok after := by
  cases ends : blockLoop isLast position b l (r :: rest) with
  | ok after => exact ⟨after, rfl⟩
  | error abort =>
      have first : (r :: rest).find? (WorkReport.leaves isLast) = some r :=
        List.find?_cons_of_pos leaves
      rcases blockLoop_stuck ends with ⟨_, stays⟩ | ⟨_, last, r', found, code, silent⟩
      · cases first.symm.trans stays
      · cases first.symm.trans found
        exact (Bool.false_ne_true (silent.symm.trans (called last code))).elim

/-- The loop over the blocks runs the inner loop of the next block that takes part. -/
theorem workLoop_of_part {answers : Answers} {ran rest : List Block} {b placed : Block} {l : Loop}
    (part : b.isHier = false) (places : place (ran ++ b :: rest) b = .ok placed) :
    workLoop answers ran (b :: rest) l =
      innerLoop rest.isEmpty ran.length b placed (l.log (.placed ran.length placed))
        (answers.reports ran.length) >>= fun left =>
          workLoop answers (ran ++ [left.1]) rest left.2 := by
  rw [workLoop, if_neg (by rw [part]; decide), places]
  unfold innerLoop
  change (if (rest.isEmpty && !b.isAsyncBlock) = true then _ else _) = _
  split <;> rfl

/-- An iteration goes on for as long as its first block does not leave its loop. -/
theorem runOneIteration_spins {answers : Answers} {g ready : Group} {b placed : Block}
    {rest : List Block} (checks : negotiate answers g = .ok (ready, .ready))
    (blocks : ready.blocks = b :: rest) (part : b.isHier = false) (others : rest ≠ [])
    (places : place ready.blocks b = .ok placed)
    (stays : ∀ r ∈ answers.reports 0, r.leaves false = false) :
    ∃ events, runOneIteration answers g = .error ⟨.spinning, events⟩ := by
  obtain ⟨events, spins⟩ := (@blockLoop_spins_iff false 0 placed
    (Loop.log {} (.placed 0 placed)) _).mpr stays
  have last : rest.isEmpty = false := by simp [others]
  have loop : workLoop answers [] ready.blocks {} = .error ⟨.spinning, events⟩ := by
    rw [blocks] at places ⊢
    rw [workLoop_of_part part places, last]
    change blockLoop false 0 placed (Loop.log {} (.placed 0 placed)) (answers.reports 0) >>= _ = _
    rw [spins]
    rfl
  refine ⟨events, ?_⟩
  unfold runOneIteration
  rw [checks]
  change workLoop answers [] ready.blocks {} >>= _ = _
  rw [loop]
  rfl

/-- The calls of one block that always answers alike. -/
theorem innerLoop_ends_iff {work : SteadyWork} {isLast : Bool} {position : Nat} {b placed : Block}
    {l : Loop} :
    (∃ calls after, innerLoop isLast position b placed l (work.reports calls position) =
        .ok after) ↔
      (work.ret position).leaves isLast = true ∧ (isLast = true → work.Answered b position) := by
  constructor
  · rintro ⟨calls, after, ended⟩
    obtain ⟨castable, ended⟩ : (isLast && !b.isAsyncBlock) = false ∧
        blockLoop isLast position placed l (work.reports calls position) = .ok after := by
      unfold innerLoop at ended
      split at ended
      · cases ended
      · rename_i castable
        exact ⟨Bool.eq_false_iff.mpr castable, ended⟩
    obtain ⟨r, _, found, _, _, _, called⟩ := blockLoop_final ended
    have listed := List.mem_of_find?_eq_some found
    have leaves := List.find?_some found
    rw [WorkReport.leaves_eq, SteadyWork.ret_of_mem listed] at leaves
    refine ⟨leaves, fun last => ?_⟩
    subst last
    refine ⟨by simpa using castable, fun code => ?_⟩
    -- All calls return what the first one does, so the first one is the last.
    cases calls with
    | zero => cases listed
    | succ calls =>
        rw [SteadyWork.reports, List.range_succ_eq_map, List.map_cons,
          List.find?_cons_of_pos (by rw [WorkReport.leaves_eq, work.same]; exact leaves)] at found
        cases found
        rw [work.same, work.calledBack] at called
        exact called rfl code
  · rintro ⟨leaves, answered⟩
    have castable : (isLast && !b.isAsyncBlock) = false := by
      cases isLast with
      | false => rfl
      | true => rw [(answered rfl).async]; rfl
    refine ⟨1, ?_⟩
    unfold innerLoop
    rw [castable, if_neg Bool.false_ne_true]
    refine blockLoop_of_leaves ?_ fun last code => ?_
    · rw [WorkReport.leaves_eq, work.same]
      exact leaves
    · rw [work.same] at code
      rw [work.calledBack]
      exact (answered last).accepts code

/-- **Which inner loops end.** -/
theorem inner_loops_end_iff (g : Group) (work : SteadyWork) :
    work.InnerLoopsEnd g ↔ work.Leaves g := by
  constructor
  · intro ends p b present part
    obtain ⟨leaves, answered⟩ := innerLoop_ends_iff.mp (ends p b present part 0 0 {})
    exact ⟨leaves, fun last => answered (beq_iff_eq.mpr last)⟩
  · intro leaves p b present part inItems outItems l
    obtain ⟨status, answered⟩ := leaves p b present part
    exact innerLoop_ends_iff.mpr ⟨status, fun last => answered (beq_iff_eq.mp last)⟩

/-- Where every block leaves its inner loop, no iteration is stuck in one: one
call of each block is enough. -/
theorem not_inLoop_of_leaves {work : SteadyWork} {g : Group} (leaves : work.Leaves g)
    (answers : Answers) (calls : Nat) {abort : Abort}
    (stuck : runOneIteration { answers with reports := work.reports (calls + 1) } g =
      .error abort) : abort.cause.inLoop = false := by
  by_contra inLoop
  rw [Bool.not_eq_false] at inLoop
  obtain ⟨_, p, b, placed, middle, present, part, inner⟩ := blockLoop_of_inLoop stuck inLoop
  obtain ⟨status, answered⟩ := leaves p b present part
  have ends : ∃ after, blockLoop (p + 1 == g.blocks.length) p placed middle
      (work.reports (calls + 1) p) = .ok after := by
    rw [SteadyWork.reports, List.range_succ_eq_map, List.map_cons]
    refine blockLoop_of_leaves ?_ fun last code => ?_
    · rw [WorkReport.leaves_eq, work.same]
      exact status
    · rw [work.same] at code
      rw [work.calledBack]
      exact (answered (beq_iff_eq.mp last)).accepts code
  obtain ⟨after, ended⟩ := ends
  cases inner.symm.trans ended

/-- Blocks that move nothing and always return the statuses of a list. -/
def steadily (rets : List WorkReturn) (accepted : Bool) : SteadyWork where
  ret := fun p => rets.getD p .ok
  accepts := fun _ _ => accepted
  report := fun p _ => { ret := rets.getD p .ok, consumed := fun _ => 0, produced := fun _ => 0
                         calledBack := accepted }
  same := fun _ _ => rfl
  calledBack := fun _ _ => rfl

/-- The first of two blocks lacks input items: the iteration calls it for ever. -/
theorem first_block_spins :
    ¬ (steadily [.insufficientInputItems, .ok] true).InnerLoopsEnd (twoBlocks 8 16) ∧
      ∀ calls, ∃ events, runOneIteration
        { reports := (steadily [.insufficientInputItems, .ok] true).reports calls }
        (twoBlocks 8 16) = .error ⟨.spinning, events⟩ := by
  constructor
  · rw [inner_loops_end_iff]
    intro leaves
    have absurd := (leaves 0 _ rfl rfl).1
    cases absurd
  · intro calls
    refine runOneIteration_spins (show negotiate _ _ = .ok (_, .ready) from rfl) rfl rfl
      (List.cons_ne_nil _ _) (show place _ _ = .ok _ from rfl) fun r listed => ?_
    rw [WorkReport.leaves_eq, SteadyWork.ret_of_mem listed]
    rfl

end GraphExecutor

end TorchDsp
