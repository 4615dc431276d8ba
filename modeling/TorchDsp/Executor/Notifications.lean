import TorchDsp.Executor.Unclog

/-! # The notifications of an iteration

An iteration that reaches its commit phase notifies its neighbours whether or not it
has moved anything. Where no blocked callback moves a buffer, it therefore keeps
silent exactly when a port fails its check (`TorchDsp.GraphExecutor.silent_iff`).
-/

namespace TorchDsp

/-- No blocked callback moves a buffer. -/
def Answers.NoneMoved (answers : Answers) : Prop :=
  ∀ p i, answers.inputBlocked p i = false ∧ answers.outputBlocked p i = false

/-- No neighbour is notified. -/
def Iteration.Silent (iteration : Iteration) : Prop :=
  ∀ p i action, .notify p i action ∉ iteration.events

namespace GraphExecutor

/-- Every output port of the last block passes its check. -/
def OutputsReady (answers : Answers) (g : Group) : Prop :=
  ∀ last, g.blocks.getLast? = some last → ∀ i w, last.outputs[i]? = some w →
    outputReady g last.outputMultiple (answers.writeInfo i) w = .ok true

/-! ## The output check -/

/-- An output check that returns passes when every port does. -/
theorem checkOutputs_passes_iff {g : Group} {multiple : Option Nat} {writeInfo : Nat → Bool}
    {n : Nat} {ws checked : List BlockWorkOutput} {ready : Bool}
    (checks : checkOutputs g multiple writeInfo n ws = .ok (checked, ready)) :
    ready = true ↔
      ∀ i w, ws[i]? = some w → outputReady g multiple (writeInfo (n + i)) w = .ok true := by
  induction ws generalizing n checked with
  | nil =>
      cases checks
      exact iff_of_true rfl fun i w absurd => by cases absurd
  | cons first rest ih =>
      rw [@List.forall_getElem?_cons _ fun i w => outputReady g multiple (writeInfo i) w = .ok true]
      rcases checkOutputs_cons checks with ⟨fails, _, rfl⟩ | ⟨passes, others, tail, _⟩
      · refine iff_of_false Bool.false_ne_true fun all => ?_
        rw [fails] at all
        cases all.1
      · rw [and_iff_right passes]
        exact ih tail

private theorem outputReady_eq_of_sameTotals {g g' : Group} (same : g.SameTotals g')
    (multiple : Option Nat) : outputReady g' multiple = outputReady g multiple := by
  funext answer w
  unfold outputReady outputCount outputRoom
  simp only [same.spaceAvailable_eq, same.buffers]

/-- An iteration gets past its checks when all ports at both ends pass theirs. -/
theorem passes_iff_ready {answers : Answers} {g g' : Group} {readiness : Readiness}
    (checks : negotiate answers g = .ok (g', readiness)) :
    passes answers g = true ↔ InputsReady answers g ∧ OutputsReady answers g := by
  have inputs := negotiate_inputsBlocked_iff checks
  have reaches : passes answers g = true ↔ readiness = .ready := by
    rw [passes_eq_true, checks]
    constructor
    · rintro ⟨other, same⟩
      cases same
      rfl
    · rintro rfl
      exact ⟨g', rfl⟩
  rw [reaches]
  unfold negotiate at checks
  obtain ⟨⟨middle, ready⟩, input, checks⟩ := Except.bind_eq_ok checks
  cases ready with
  | false =>
      cases checks
      exact iff_of_false Readiness.noConfusion fun both => inputs.mp rfl both.1
  | true =>
      obtain ⟨same, _, last, b, atEnd, tail, outputs, multiple⟩ := checkFirst_eq_ok input
      obtain ⟨⟨final, ready⟩, output, checks⟩ := Except.bind_eq_ok checks
      unfold checkLast at output
      simp only [tail] at output
      obtain ⟨⟨checked, answer⟩, loop, stored⟩ := Except.bind_eq_ok output
      cases stored
      have passing := checkOutputs_passes_iff loop
      rw [outputs, multiple, outputReady_eq_of_sameTotals same] at passing
      simp only [Nat.zero_add] at passing
      have ends : OutputsReady answers g ↔ answer = true := by
        rw [passing]
        constructor
        · intro all
          exact all last atEnd
        · intro all other same
          cases atEnd.symm.trans same
          exact all
      have enters : InputsReady answers g := by
        by_contra blocked
        have stops := inputs.mpr blocked
        cases checks
        cases answer <;> cases stops
      rw [ends, and_iff_right enters]
      cases checks
      cases answer
      · exact iff_of_false Readiness.noConfusion Bool.false_ne_true
      · exact iff_of_true rfl rfl

/-! ## The iteration -/

/-- The commit phase notifies whatever it has posted. -/
theorem notified_commit {g g' : Group} {events later : List Event}
    (commits : commit g events = .ok (g', later)) : .notify 0 0 .notifyOutput ∈ later := by
  unfold commit at commits
  obtain ⟨w0, atStart, commits⟩ := Except.bind_eq_ok commits
  obtain ⟨w, _, commits⟩ := Except.bind_eq_ok commits
  cases commits
  apply List.mem_append_left
  apply List.mem_append_right
  have port := Except.mapError_eq_ok atStart
  unfold firstInput at port
  split at port
  · cases port
  · rename_i found
    obtain ⟨first, head, input⟩ := Option.bind_eq_some_iff.mp found
    have count : (g.blocks.map postReads).head?.elim 0 (fun b => b.inputs.length) =
        first.inputs.length := by
      rw [List.head?_map, head, Option.map_some, Option.elim_some, postReads, List.length_map]
    rw [count, notifyPorts]
    refine List.mem_map.mpr ⟨0, List.mem_range.mpr ?_, rfl⟩
    exact List.length_pos_of_ne_nil fun none => by rw [none] at input; cases input

private theorem silent_unclogOutputs {answers : Answers} {blocks : List Block} {events : List Event}
    (refuses : answers.NoneMoved) (callbacks : unclogOutputs answers blocks [] = .ok events)
    (p i : Nat) (action : SchedulerAction) : .notify p i action ∉ events := by
  obtain ⟨_, rfl⟩ := unclog_eq_ok.mp callbacks
  rw [List.nil_append, List.mem_flatMap]
  rintro ⟨port, _, call⟩
  rw [portCalls, (refuses port.1 port.2.1).2, Bool.false_and, if_neg Bool.false_ne_true] at call
  cases List.mem_singleton.mp call

/-- An iteration whose callbacks move no buffer keeps silent exactly when a port
fails its check. -/
theorem silent_iff {answers : Answers} {g : Group} {iteration : Iteration}
    (returns : runOneIteration answers g = .ok iteration) (refuses : answers.NoneMoved) :
    iteration.Silent ↔ ¬ (InputsReady answers g ∧ OutputsReady answers g) := by
  cases returned returns with
  | inputsBlocked checks =>
      rw [← passes_iff_ready checks, passes_eq_true, checks]
      refine iff_of_true (fun p i action absurd => (List.not_mem_nil absurd).elim) ?_
      rintro ⟨other, absurd⟩
      cases absurd
  | outputsBlocked checks callbacks =>
      rw [← passes_iff_ready checks, passes_eq_true, checks]
      refine iff_of_true (silent_unclogOutputs refuses callbacks) ?_
      rintro ⟨other, absurd⟩
      cases absurd
  | worked checks runs commits callbacks =>
      rw [← passes_iff_ready checks, passes_eq_true, checks]
      refine iff_of_false (fun silent => silent 0 0 .notifyOutput ?_) (not_not_intro ⟨_, rfl⟩)
      have notified := notified_commit commits
      split at callbacks
      · exact unclog_events callbacks _ notified
      · split at callbacks
        · exact unclog_events callbacks _ notified
        · cases callbacks
          exact notified

end GraphExecutor

end TorchDsp
