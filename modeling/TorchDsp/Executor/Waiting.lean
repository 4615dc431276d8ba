import TorchDsp.Executor.Steps

/-! # Waiting for good

An iteration that does not come to an end is stuck in the inner loop of a block
(`TorchDsp.GraphExecutor.blockLoop_of_inLoop`). It waits for a callback that is
never made only for the last block, after a call of `do_work` that returned `OK`
or `DONE` (`TorchDsp.GraphExecutor.waits_of_iteration`). The other causes that
keep an iteration from its end lie elsewhere.
-/

namespace TorchDsp

/-- Whether an iteration with this cause is stuck in an inner loop. -/
def Cause.inLoop : Cause → Bool
  | .spinning | .waiting => true
  | _ => false

/-- A report that is waited for when the last block returns it, and whose
callback nobody makes. -/
def WorkReport.Silent (r : WorkReport) : Prop :=
  (r.ret = .ok ∨ r.ret = .done) ∧ r.calledBack = false

/-- The last block takes part and is left with a report whose callback nobody
makes. -/
def Answers.LastWaits (answers : Answers) (g : Group) : Prop :=
  ∃ last r, g.blocks.getLast? = some last ∧ last.isHier = false ∧
    answers.final g.blocks.length (g.blocks.length - 1) = some r ∧ r.Silent

namespace GraphExecutor

/-- An inner loop that does not end is not left by any report, or waits for a
callback that is never made. -/
theorem blockLoop_stuck {isLast : Bool} {position : Nat} {b : Block} {l : Loop}
    {reports : List WorkReport} {abort : Abort}
    (stuck : blockLoop isLast position b l reports = .error abort) :
    (abort.cause = .spinning ∧ reports.find? (WorkReport.leaves isLast) = none) ∨
      abort.cause = .waiting ∧ isLast = true ∧
        ∃ r, reports.find? (WorkReport.leaves isLast) = some r ∧ r.Silent := by
  induction reports generalizing b l with
  | nil =>
      cases stuck
      exact Or.inl ⟨rfl, rfl⟩
  | cons r rest ih =>
      unfold blockLoop at stuck
      cases code : r.ret with
      | ok | done =>
          have ends : r.leaves isLast = true := by rw [WorkReport.leaves, code]
          rw [List.find?_cons_of_pos ends]
          simp only [code] at stuck
          split at stuck
          · rename_i callback
            rw [Bool.and_eq_true, Bool.not_eq_true'] at callback
            cases stuck
            exact Or.inr ⟨rfl, callback.1, r, rfl, by rw [code]; decide, callback.2⟩
          · cases stuck
      | insufficientInputItems | insufficientOutputItems =>
          rw [code] at stuck
          cases isLast with
          | true => cases stuck
          | false =>
              have again : ¬ r.leaves false = true := by rw [WorkReport.leaves, code]; decide
              rw [List.find?_cons_of_neg again]
              exact ih stuck
      | other value =>
          have again : ¬ r.leaves isLast = true := by
            rw [WorkReport.leaves, code]
            exact Bool.false_ne_true
          rw [code] at stuck
          rw [List.find?_cons_of_neg again]
          exact ih stuck

private theorem firstInput_error {blocks : List Block} {cause : Cause}
    (fails : firstInput blocks = .error cause) : cause.inLoop = false := by
  unfold firstInput at fails
  split at fails <;> cases fails
  rfl

private theorem lastOutput_error {blocks : List Block} {cause : Cause}
    (fails : lastOutput blocks = .error cause) : cause.inLoop = false := by
  unfold lastOutput at fails
  split at fails <;> cases fails
  rfl

private theorem place_error {blocks : List Block} {b : Block} {cause : Cause}
    (fails : place blocks b = .error cause) : cause.inLoop = false := by
  unfold place at fails
  rcases Except.bind_eq_error fails with fails | ⟨_, _, fails⟩
  · split at fails
    · cases fails
    · exact firstInput_error (Except.map_eq_error fails)
  · rcases Except.bind_eq_error fails with fails | ⟨_, _, fails⟩
    · split at fails
      · cases fails
      · exact lastOutput_error (Except.map_eq_error fails)
    · cases fails

/-- The loop over the blocks is stuck where the inner loop of one block is. -/
theorem workLoop_inLoop {answers : Answers} {ran todo : List Block} {l : Loop} {abort : Abort}
    (stuck : workLoop answers ran todo l = .error abort) (inLoop : abort.cause.inLoop = true) :
    ∃ i b placed middle, todo[i]? = some b ∧ b.isHier = false ∧
      blockLoop (i + 1 == todo.length) (ran.length + i) placed middle
        (answers.reports (ran.length + i)) = .error abort := by
  induction todo generalizing ran l with
  | nil => cases stuck
  | cons b rest ih =>
      have onward {after : Block} {middle : Loop}
          (stuck : workLoop answers (ran ++ [after]) rest middle = .error abort) :
          ∃ i b' placed middle, (b :: rest)[i]? = some b' ∧ b'.isHier = false ∧
            blockLoop (i + 1 == (b :: rest).length) (ran.length + i) placed middle
              (answers.reports (ran.length + i)) = .error abort := by
        obtain ⟨i, b', placed, middle, present, part, inner⟩ := ih stuck
        rw [List.length_append, List.length_singleton, Nat.add_right_comm, Nat.add_assoc] at inner
        refine ⟨i + 1, b', placed, middle, present, part, ?_⟩
        have last : (i + 1 + 1 == (b :: rest).length) = (i + 1 == rest.length) := by
          rw [Bool.eq_iff_iff]
          simp
        rw [last, inner]
      unfold workLoop at stuck
      split at stuck
      · exact onward stuck
      · rename_i part
        rw [Bool.not_eq_true] at part
        rcases Except.bind_eq_error stuck with stuck | ⟨placed, _, stuck⟩
        · obtain ⟨cause, fails, same⟩ := Except.mapError_eq_error stuck
          subst same
          rw [place_error fails] at inLoop
          cases inLoop
        · split at stuck
          · cases stuck
            cases inLoop
          · rcases Except.bind_eq_error stuck with stuck | ⟨⟨after, middle⟩, _, stuck⟩
            · refine ⟨0, b, placed, l.log (.placed ran.length placed), rfl, part, ?_⟩
              rw [← stuck]
              cases rest <;> rfl
            · exact onward stuck

private theorem checkOutputs_error {g : Group} {multiple : Option Nat} {writeInfo : Nat → Bool}
    {i : Nat} {ws : List BlockWorkOutput} {cause : Cause}
    (fails : checkOutputs g multiple writeInfo i ws = .error cause) : cause = .divisionByZero := by
  have port {w : BlockWorkOutput} {answer : Bool} {other : Cause}
      (fails : outputReady g multiple answer w = .error other) : other = .divisionByZero := by
    unfold outputReady at fails
    split at fails
    · cases fails
    · simp only at fails
      split at fails
      · cases fails
      · split at fails <;> cases fails
        rfl
  induction ws generalizing i with
  | nil => cases fails
  | cons w rest ih =>
      unfold checkOutputs at fails
      rcases Except.bind_eq_error fails with fails | ⟨passes, _, fails⟩
      · exact port fails
      · cases passes with
        | false => cases fails
        | true =>
            rcases Except.bind_eq_error fails with fails | ⟨_, _, fails⟩
            · exact ih fails
            · cases fails

/-- The checks fail for want of a block or of a multiple. -/
theorem negotiate_error {answers : Answers} {g : Group} {cause : Cause}
    (fails : negotiate answers g = .error cause) : cause = .noBlock ∨ cause = .divisionByZero := by
  have first {other : Cause} (fails : checkFirst answers g = .error other) :
      other = .noBlock := by
    unfold checkFirst at fails
    split at fails <;> cases fails
    rfl
  have last {g : Group} {other : Cause} (fails : checkLast answers g = .error other) :
      other = .noBlock ∨ other = .divisionByZero := by
    unfold checkLast at fails
    split at fails
    · cases fails
      exact Or.inl rfl
    · rcases Except.bind_eq_error fails with fails | ⟨_, _, fails⟩
      · exact Or.inr (checkOutputs_error fails)
      · cases fails
  unfold negotiate at fails
  rcases Except.bind_eq_error fails with fails | ⟨⟨checked, ready⟩, _, fails⟩
  · exact Or.inl (first fails)
  · cases ready with
    | false => cases fails
    | true =>
        rcases Except.bind_eq_error fails with fails | ⟨_, _, fails⟩
        · exact last fails
        · cases fails

private theorem commit_error {g : Group} {events : List Event} {abort : Abort}
    (fails : commit g events = .error abort) : abort.cause.inLoop = false := by
  unfold commit at fails
  rcases Except.bind_eq_error fails with fails | ⟨_, _, fails⟩
  · obtain ⟨cause, missing, same⟩ := Except.mapError_eq_error fails
    subst same
    exact firstInput_error missing
  · rcases Except.bind_eq_error fails with fails | ⟨_, _, fails⟩
    · obtain ⟨cause, missing, same⟩ := Except.mapError_eq_error fails
      subst same
      exact lastOutput_error missing
    · cases fails

private theorem unclog_error {call : Nat → Nat → Event} {answer : Nat → Nat → Bool}
    {neighbour : Nat} {action : SchedulerAction} {ports : List (Nat × Nat × Bool)}
    {events : List Event} {abort : Abort}
    (fails : unclog call answer neighbour action ports events = .error abort) :
    abort.cause.inLoop = false := by
  induction ports generalizing events with
  | nil => cases fails
  | cons port rest ih =>
      obtain ⟨p, i, buffered⟩ := port
      cases buffered with
      | false => cases fails; rfl
      | true => exact ih fails

/-- An iteration that comes to an end is not kept waiting. -/
theorem not_lastWaits_of_returns {answers : Answers} {g : Group} {iteration : Iteration}
    (returns : runOneIteration answers g = .ok iteration) (reaches : passes answers g = true) :
    ¬ answers.LastWaits g := by
  intro ⟨last, r, atEnd, part, final, code, silent⟩
  have length : g.blocks.length - 1 + 1 = g.blocks.length :=
    Nat.sub_add_cancel (List.length_pos_iff.mpr fun none => by rw [none] at atEnd; cases atEnd)
  rw [List.getLast?_eq_getElem?] at atEnd
  obtain ⟨r', _, final', _, _, called⟩ := calls_of_passes returns reaches atEnd part
  rw [final] at final'
  cases final'
  rw [(called length).2 code] at silent
  cases silent

/-- An iteration that does not come to an end is stuck in an inner loop. -/
theorem blockLoop_of_inLoop {answers : Answers} {g : Group} {abort : Abort}
    (stuck : runOneIteration answers g = .error abort) (inLoop : abort.cause.inLoop = true) :
    passes answers g = true ∧ ∃ p b placed middle, g.blocks[p]? = some b ∧ b.isHier = false ∧
      blockLoop (p + 1 == g.blocks.length) p placed middle (answers.reports p) = .error abort := by
  have elsewhere {P : Prop} (outside : abort.cause.inLoop = false) : P := by
    rw [outside] at inLoop
    cases inLoop
  unfold runOneIteration at stuck
  rcases Except.bind_eq_error stuck with stuck | ⟨⟨ready, readiness⟩, checks, stuck⟩
  · obtain ⟨cause, fails, same⟩ := Except.mapError_eq_error stuck
    subst same
    rcases negotiate_error fails with rfl | rfl
    · exact elsewhere rfl
    · exact elsewhere rfl
  · have checks := Except.mapError_eq_ok checks
    cases readiness with
    | inputsBlocked => cases stuck
    | outputsBlocked =>
        rcases Except.bind_eq_error stuck with stuck | ⟨_, _, stuck⟩
        · exact elsewhere (unclog_error stuck)
        · cases stuck
    | ready =>
        refine ⟨passes_eq_true.mpr ⟨ready, checks⟩, ?_⟩
        rcases Except.bind_eq_error stuck with stuck | ⟨⟨blocks, l⟩, _, stuck⟩
        · obtain ⟨p, b, placed, middle, present, part, inner⟩ := workLoop_inLoop stuck inLoop
          have same := (negotiate_cases checks).1
          obtain ⟨b', present', bare⟩ := same.symm.block present
          rw [same.length_eq, List.length_nil, Nat.zero_add] at inner
          refine ⟨p, b', placed, middle, present', ?_, inner⟩
          rw [← Block.bare_isHier, bare, Block.bare_isHier, part]
        · rcases Except.bind_eq_error stuck with stuck | ⟨⟨g', events⟩, _, stuck⟩
          · exact elsewhere (commit_error stuck)
          · rcases Except.bind_eq_error stuck with stuck | ⟨_, _, stuck⟩
            · split at stuck
              · exact elsewhere (unclog_error stuck)
              · split at stuck
                · exact elsewhere (unclog_error stuck)
                · cases stuck
            · cases stuck

/-- **What an iteration waits for.** -/
theorem waits_of_iteration {answers : Answers} {g : Group} {abort : Abort}
    (stuck : runOneIteration answers g = .error abort) (waits : abort.cause = .waiting) :
    passes answers g = true ∧ answers.LastWaits g := by
  obtain ⟨reaches, p, b, placed, middle, present, part, inner⟩ :=
    blockLoop_of_inLoop stuck (by rw [waits]; rfl)
  obtain ⟨last, r, found, silent⟩ := (blockLoop_stuck inner).elim
    (fun spins => by rw [waits] at spins; cases spins.1) And.right
  have length : p = g.blocks.length - 1 := Nat.eq_sub_of_add_eq (eq_of_beq last)
  subst length
  exact ⟨reaches, b, r, List.getLast?_eq_getElem?.trans present, part, found, silent⟩

end GraphExecutor

end TorchDsp
