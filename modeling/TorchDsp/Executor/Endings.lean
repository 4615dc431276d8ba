import TorchDsp.Executor.PortAccess

/-! # How an iteration ends

An iteration that has its ports and whose last block can be called back comes to one of
three ends once it has passed its checks: it returns, a block never leaves its inner
loop, or the last block waits for a callback that nobody makes
(`TorchDsp.GraphExecutor.ending_of_passes`).
-/

namespace TorchDsp

namespace GraphExecutor

/-- A group whose blocks all take part, with the ports and buffers that an iteration uses
and a last block that can be called back. -/
structure Equipped (g : Group) : Prop where
  part : ∀ b ∈ g.blocks, b.isHier = false
  async : ∀ b, g.blocks.getLast? = some b → b.isAsyncBlock = true
  first : firstHasInput g.blocks = true
  last : lastHasOutput g.blocks = true
  inputs : InputsBuffered g
  outputs : OutputsBuffered g

private theorem Equipped.portsPresent {g : Group} (equipped : Equipped g) (answers : Answers) :
    PortsPresent answers g :=
  ⟨fun _ => equipped.outputs, fun _ => Or.inr ⟨equipped.first, equipped.last,
    fun _ => equipped.inputs, fun _ => equipped.outputs⟩⟩

/-- The do_work loop ends for want of a port, in an inner loop, or at a last block that
cannot be called back. -/
theorem workLoop_cause {answers : Answers} {ran todo : List Block} {l : Loop} {abort : Abort}
    (stuck : workLoop answers ran todo l = .error abort) :
    abort.cause.badAccess = true ∨ abort.cause.inLoop = true ∨
      ∃ b, todo.getLast? = some b ∧ b.isAsyncBlock = false := by
  induction todo generalizing ran l with
  | nil => cases stuck
  | cons b rest ih =>
      have onward {after : Block} {middle : Loop}
          (stuck : workLoop answers (ran ++ [after]) rest middle = .error abort) :
          abort.cause.badAccess = true ∨ abort.cause.inLoop = true ∨
            ∃ b', (b :: rest).getLast? = some b' ∧ b'.isAsyncBlock = false := by
        refine (ih stuck).imp_right fun other => other.imp_right fun ⟨last, atEnd, plain⟩ => ?_
        exact ⟨last, by rw [List.getLast?_cons, atEnd]; rfl, plain⟩
      unfold workLoop at stuck
      split at stuck
      · exact onward stuck
      · rcases Except.bind_eq_error stuck with stuck | ⟨placed, _, stuck⟩
        · obtain ⟨cause, fails, rfl⟩ := Except.mapError_eq_error stuck
          exact Or.inl (place_badAccess fails).1
        · split at stuck
          · rename_i alone
            rw [Bool.and_eq_true, List.isEmpty_iff, Bool.not_eq_true'] at alone
            obtain ⟨rfl, plain⟩ := alone
            exact Or.inr (Or.inr ⟨b, rfl, plain⟩)
          · rcases Except.bind_eq_error stuck with stuck | ⟨⟨after, middle⟩, _, stuck⟩
            · refine Or.inr (Or.inl ?_)
              rcases blockLoop_stuck stuck with ⟨spins, _⟩ | ⟨waits, _⟩
              · rw [spins]
                rfl
              · rw [waits]
                rfl
            · exact onward stuck

/-- The ends of an iteration that has passed its checks. -/
inductive Ending (answers : Answers) (g : Group) : Except Abort Iteration → Prop
  | returns (iteration : Iteration)
      (left : ∀ p < g.blocks.length, ∃ r, answers.final g.blocks.length p = some r)
      (called : ¬ answers.LastWaits g) : Ending answers g (.ok iteration)
  | spins (events : List Event) (p : Nat) (bound : p < g.blocks.length)
      (stays : answers.final g.blocks.length p = none) :
      Ending answers g (.error ⟨.spinning, events⟩)
  | waits (events : List Event) (silent : answers.LastWaits g) :
      Ending answers g (.error ⟨.waiting, events⟩)

/-- With all ports there, an iteration stops short only inside its loop. -/
theorem Equipped.inLoop {g : Group} (equipped : Equipped g) {answers : Answers}
    (reaches : passes answers g = true) {abort : Abort}
    (stuck : runOneIteration answers g = .error abort) : abort.cause.inLoop = true := by
  have safe := inBounds_of_portsPresent (equipped.portsPresent answers) abort stuck
  obtain ⟨ready, checks⟩ := passes_eq_true.mp reaches
  have same := (negotiate_cases checks).1
  cases runs : workLoop answers [] ready.blocks {} with
  | error other =>
      cases (runOneIteration_of_stuck checks runs).symm.trans stuck
      rcases workLoop_cause runs with bad | inLoop | ⟨last, atEnd, plain⟩
      · exact (Bool.false_ne_true (safe.symm.trans bad)).elim
      · exact inLoop
      · rw [List.getLast?_eq_getElem?] at atEnd
        obtain ⟨last', atEnd', bare⟩ := same.symm.block atEnd
        have async := equipped.async last'
          (by rw [List.getLast?_eq_getElem?, ← same.length_eq, atEnd'])
        rw [← last'.bare_isAsyncBlock, bare, last.bare_isAsyncBlock, plain] at async
        cases async
  | ok result =>
      obtain ⟨blocks, l⟩ := result
      rw [runOneIteration_of_runs checks runs] at stuck
      have bad : abort.cause.badAccess = true := by
        rcases Except.bind_eq_error stuck with fails | ⟨⟨after, committed⟩, _, stuck⟩
        · exact (commit_badAccess fails).1
        · rcases Except.bind_eq_error stuck with fails | ⟨_, _, absurd⟩
          · split at fails
            · exact unclog_badAccess fails
            · split at fails
              · exact unclog_badAccess fails
              · cases fails
          · cases absurd
      exact (Bool.false_ne_true (safe.symm.trans bad)).elim

/-- **How an iteration ends.** -/
theorem ending_of_passes {answers : Answers} {g : Group} (equipped : Equipped g)
    (reaches : passes answers g = true) : Ending answers g (runOneIteration answers g) := by
  cases outcome : runOneIteration answers g with
  | ok iteration =>
      refine .returns iteration (fun p bound => ?_) (not_lastWaits_of_returns outcome reaches)
      have present := List.getElem?_eq_getElem bound
      obtain ⟨r, _, final, _⟩ := calls_of_passes outcome reaches present
        (equipped.part _ (List.getElem_mem bound))
      exact ⟨r, final⟩
  | error abort =>
      have inLoop := equipped.inLoop reaches outcome
      obtain ⟨cause, events⟩ := abort
      obtain ⟨_, p, b, placed, middle, present, _, inner⟩ := blockLoop_of_inLoop outcome inLoop
      rcases blockLoop_stuck inner with ⟨rfl, stays⟩ | ⟨rfl, _, _⟩
      · exact .spins events p (List.getElem?_eq_some_iff.mp present).1 stays
      · exact .waits events (waits_of_iteration outcome rfl).2

end GraphExecutor

end TorchDsp
