import TorchDsp.Executor.Accounting

/-! # The phases of an iteration

Between its two checks, its work and its two commits an iteration holds no lock,
so the neighbours of a group move in between. An iteration that is resumed phase
by phase without their help is `run_one_iteration`
(`TorchDsp.GraphExecutor.resumeFor_eq`).
-/

namespace TorchDsp

namespace GraphExecutor

/-- Where an iteration stands between two phases. -/
inductive Point
  | start
  | inputsChecked
  | outputsChecked
  /-- All blocks have run. -/
  | worked (l : Loop)
  /-- What the blocks consumed is released. -/
  | released (l : Loop)
  /-- What the blocks produced is published. -/
  | published (l : Loop)
  | returned (status : ExecutorIterationStatus) (events : List Event)

/-- `post_read` on every input port, and the notification of the first block's
neighbours. -/
def release (g : Group) (events : List Event) : Except Abort (Group × List Event) := do
  let _ ← (firstInput g.blocks).mapError (⟨·, events⟩)
  let blocks := g.blocks.map postReads
  return ({ g with blocks },
    events ++ notifyPorts 0 (blocks.head?.elim 0 fun b => b.inputs.length) .notifyOutput)

/-- `post_write` on every output port, and the notification of the last block's
neighbours. -/
def publish (g : Group) (events : List Event) : Except Abort (Group × List Event) := do
  let w ← (lastOutput g.blocks).mapError (⟨·, events⟩)
  return ({ g with buffers := postWrites w.nProduced (outputBuffers g.blocks) g.buffers },
    events ++ notifyPorts (g.blocks.length - 1)
      (g.blocks.getLast?.elim 0 fun b => b.outputs.length) .notifyInput)

/-- The next phase of an iteration; one that has returned starts again. -/
def resume (answers : Answers) (g : Group) : Point → Except Abort (Group × Point)
  | .start => do
      let (g, ready) ← (checkFirst answers g).mapError (⟨·, []⟩)
      return (g, if ready then .inputsChecked else .returned .blkdIn [])
  | .inputsChecked => do
      let (g, ready) ← (checkLast answers g).mapError (⟨·, []⟩)
      if ready then return (g, .outputsChecked)
      else return (g, .returned .blkdOut (← unclogOutputs answers g.blocks []))
  | .outputsChecked => do
      let (blocks, l) ← workLoop answers [] g.blocks {}
      return ({ g with blocks }, .worked l)
  | .worked l => do
      let (g, events) ← release g l.events
      return (g, .released { l with events })
  | .released l => do
      let (g, events) ← publish g l.events
      return (g, .published { l with events })
  | .published l => do
      let events ← (
        if l.unclogInputs then unclogInputs answers g.blocks l.events
        else if l.unclogOutputs then unclogOutputs answers g.blocks l.events
        else .ok l.events)
      return (g, .returned l.status events)
  | .returned .. => return (g, .start)

/-- Resume an iteration until it returns, for a number of phases at most. -/
def resumeFor (answers : Answers) : Nat → Group → Point → Except Abort (Group × Point)
  | 0, g, point => .ok (g, point)
  | _ + 1, g, .returned status events => .ok (g, .returned status events)
  | phases + 1, g, point => do
      let (g, point) ← resume answers g point
      resumeFor answers phases g point

private theorem commit_eq_bind (g : Group) (events : List Event) :
    commit g events = release g events >>= fun posted => publish posted.1 posted.2 := by
  unfold commit release publish
  cases firstInput g.blocks <;> rfl

/-- **An iteration that is not interrupted.** -/
theorem resumeFor_eq (answers : Answers) (g : Group) :
    resumeFor answers 6 g .start = (runOneIteration answers g).map fun iteration =>
      (iteration.group, .returned iteration.status iteration.events) := by
  simp only [resumeFor, resume, runOneIteration, negotiate, commit_eq_bind, bind, pure,
    Except.pure]
  cases checkFirst answers g with
  | error cause => rfl
  | ok first =>
      obtain ⟨checked, ready⟩ := first
      cases ready with
      | false => rfl
      | true =>
          simp only [Except.mapError, Except.bind, ↓reduceIte, resumeFor, resume, bind, pure,
            Except.pure]
          cases checkLast answers checked with
          | error cause => rfl
          | ok last =>
              obtain ⟨ready, room⟩ := last
              cases room with
              | false =>
                  simp only [Bool.false_eq_true, ↓reduceIte]
                  cases unclogOutputs answers ready.blocks [] <;> rfl
              | true =>
                  simp only [Except.bind, ↓reduceIte, resumeFor, resume, bind, pure, Except.pure]
                  cases workLoop answers [] ready.blocks {} with
                  | error abort => rfl
                  | ok ran =>
                      obtain ⟨blocks, l⟩ := ran
                      simp only [Except.bind, resumeFor, resume, bind, pure, Except.pure]
                      cases release { ready with blocks } l.events with
                      | error abort => rfl
                      | ok released =>
                          simp only [Except.bind, resumeFor, resume, bind, pure, Except.pure]
                          cases publish released.1 released.2 with
                          | error abort => rfl
                          | ok published =>
                              simp only [Except.bind, resumeFor, resume, bind, pure, Except.pure]
                              generalize (if l.unclogInputs = true then _ else _ :
                                Except Abort (List Event)) = callbacks
                              cases callbacks <;> rfl

end GraphExecutor

end TorchDsp
