import TorchDsp.Wrapper.Steps

/-! # Work after EXIT

An EXIT message stops the blocks and ends the drain in which it is popped, but
not the pass of the thread: an iteration that was due before it is still made
(`TorchDsp.ThreadWrapper.never_works_after_exit_iff`).
-/

namespace TorchDsp

namespace ThreadWrapper

/-- The worker has handled an EXIT message. -/
def HandledExit (log : List Record) : Prop :=
  ∃ pushed, .handled (.action .exit) pushed ∈ log

/-- Every iteration was made before the first EXIT message was handled. -/
def WorksBeforeExit (log : List Record) : Prop :=
  ∀ s pushed older, .iterated s pushed :: older <:+ log → ¬ HandledExit older

/-- No EXIT message was handled after a message of the same drain that asked for
work. -/
def ExitsIdle (log : List Record) : Prop :=
  ∀ pushed older, .handled (.action .exit) pushed :: older <:+ log → workDue older = false

private theorem HandledExit.of_cons {record : Record} {log : List Record}
    (handled : HandledExit (record :: log))
    (other : ∀ pushed, record ≠ .handled (.action .exit) pushed) : HandledExit log := by
  obtain ⟨pushed, member⟩ := handled
  rcases List.mem_cons.mp member with same | inside
  · exact (other pushed same.symm).elim
  · exact ⟨pushed, inside⟩

/-- A worker after its EXIT message: it is on its way out, and has made the
iteration that was due, if any. -/
inductive Leaving (σ : State) : Prop
  | quiet (pushed : List MonitorMessage) (older : List Record) (first : ¬ HandledExit older)
      (log : σ.log = .handled (.action .exit) pushed :: older)
      (stands : σ.pc = .drain ∨ σ.pc = .work ∨ σ.pc = .outer ∨ σ.pc = .exited)
      (stopped : σ.wrapper.threadStopped = true)
  | worked (s : ExecutorIterationStatus) (last pushed : List MonitorMessage) (older : List Record)
      (first : ¬ HandledExit older) (due : workDue older = true)
      (log : σ.log = .iterated s last :: .handled (.action .exit) pushed :: older)
      (stands : σ.pc = .outer ∨ σ.pc = .exited) (stopped : σ.wrapper.threadStopped = true)

/-- A worker on its way out has been stopped. -/
theorem Leaving.stopped {σ : State} (leaving : Leaving σ) : σ.wrapper.threadStopped = true := by
  cases leaving with
  | quiet _ _ _ _ _ stopped => exact stopped
  | worked _ _ _ _ _ _ _ _ stopped => exact stopped

/-- A worker on its way out takes no more messages from its queue. -/
theorem Leaving.stands {σ : State} (leaving : Leaving σ) :
    σ.pc = .drain ∨ σ.pc = .work ∨ σ.pc = .outer ∨ σ.pc = .exited := by
  cases leaving with
  | quiet _ _ _ _ stands _ => exact stands
  | worked _ _ _ _ _ _ _ stands _ => exact Or.inr (Or.inr stands)

/-- Another thread does not keep the worker from leaving. -/
theorem Leaving.of_same {σ σ' : State} (leaving : Leaving σ) (pc : σ'.pc = σ.pc)
    (log : σ'.log = σ.log) (stopped : σ'.wrapper.threadStopped = true) : Leaving σ' := by
  cases leaving with
  | quiet pushed older first same stands _ =>
      exact .quiet pushed older first (log.trans same) (by rwa [pc]) stopped
  | worked s last pushed older first due same stands _ =>
      exact .worked s last pushed older first due (log.trans same) (by rwa [pc]) stopped

private theorem leaving_step {opts : SchedulerTritonOptions} {σ σ' : State} {act : Act}
    (knows : KnowsWork σ) (leaving : HandledExit σ.log → Leaving σ)
    (step : Step opts σ act σ') (handled : HandledExit σ'.log) : Leaving σ' := by
  cases step_iff_moved.mp step with
  | push msg => exact (leaving handled).of_same rfl rfl (leaving handled).stopped
  | openGate => exact (leaving handled).of_same rfl rfl (leaving handled).stopped
  | requestStop => exact (leaving handled).of_same rfl rfl rfl
  | start s stands | empty s stands | pop s stands =>
      have impossible := (leaving handled).stands
      rw [stands] at impossible
      simp at impossible
  | enter s stands running | ask s stands _ running =>
      have impossible := (leaving handled).stopped
      rw [running] at impossible
      cases impossible
  | leave s stands stopped =>
      cases leaving handled with
      | quiet pushed older first log _ _ =>
          exact .quiet pushed older first log (by simp) stopped
      | worked s last pushed older first due log _ _ =>
          exact .worked s last pushed older first due log (by simp) stopped
  | drained s stands ends =>
      cases leaving handled with
      | quiet pushed older first log _ stopped =>
          exact .quiet pushed older first log (by simp) stopped
      | worked s last pushed older first due log atEnd stopped => simp [stands] at atEnd
  | handle s msg stands =>
      have before : ¬ HandledExit σ.log := by
        intro earlier
        have impossible := (leaving earlier).stands
        rw [stands] at impossible
        simp at impossible
      by_cases exit : msg = .action .exit
      · subst exit
        exact .quiet _ _ before rfl (by simp) rfl
      · exact (before (handled.of_cons fun pushed same => exit (by cases same; rfl))).elim
  | iterate s stands due =>
      cases leaving (handled.of_cons fun pushed same => by cases same) with
      | quiet pushed older first log _ stopped =>
          refine .worked s _ pushed older first ?_ (congrArg _ log) (by simp) ?_
          · unfold KnowsWork at knows
            rw [stands, due, log] at knows
            exact knows
          · exact (handleWorkNotification_keeps opts σ.wrapper s).2.1.trans stopped
      | worked s last pushed older first due log atEnd stopped => simp [stands] at atEnd
  | idle s stands none =>
      cases leaving handled with
      | quiet pushed older first log _ stopped =>
          exact .quiet pushed older first log (by simp) stopped
      | worked s last pushed older first due log atEnd stopped => simp [stands] at atEnd

/-- Whoever has handled EXIT is on its way out. -/
theorem leaving_of_run {opts : SchedulerTritonOptions} {id : Nat}
    {taken : List (Transition.Taken State Act)} {σ : State}
    (run : Transition.Run (Step opts) (State.initial id) taken σ) (handled : HandledExit σ.log) :
    Leaving σ := by
  have holds := run.invariant_of_step (fun τ => KnowsWork τ ∧ (HandledExit τ.log → Leaving τ))
    ⟨rfl, fun ⟨_, absurd⟩ => (List.not_mem_nil absurd).elim⟩
    fun _ _ _ step holds => ⟨holds.1.step step, leaving_step holds.1 holds.2 step⟩
  exact holds.2 handled

/-- A log in which nothing follows the first EXIT message has no work after it. -/
theorem worksBeforeExit_of_quiet {pushed : List MonitorMessage} {older : List Record}
    (first : ¬ HandledExit older) : WorksBeforeExit (.handled (.action .exit) pushed :: older) := by
  intro s last part inside handled
  rcases List.suffix_cons_iff.mp inside with same | inside
  · cases same
  · obtain ⟨pushed, member⟩ := handled
    exact first ⟨pushed, inside.subset (List.mem_cons_of_mem _ member)⟩

private theorem exitsIdle_iff_of_first {pushed : List MonitorMessage} {older : List Record}
    (first : ¬ HandledExit older) :
    ExitsIdle (.handled (.action .exit) pushed :: older) ↔ workDue older = false := by
  constructor
  · intro idle
    exact idle pushed older List.suffix_rfl
  · intro none pushed part inside
    rcases List.suffix_cons_iff.mp inside with same | inside
    · cases same
      exact none
    · exact (first ⟨pushed, inside.subset List.mem_cons_self⟩).elim

/-- A worker that leaves with an iteration due makes it. -/
theorem exists_work_after_exit {opts : SchedulerTritonOptions} {σ : State} (knows : KnowsWork σ)
    {pushed : List MonitorMessage} {older : List Record}
    (log : σ.log = .handled (.action .exit) pushed :: older) (due : workDue older = true)
    (stands : σ.pc = .drain ∨ σ.pc = .work ∨ σ.pc = .outer ∨ σ.pc = .exited)
    (stopped : σ.wrapper.threadStopped = true) :
    ∃ more σ' s last, Transition.Run (Step opts) σ more σ' ∧
      σ'.log = .iterated s last :: σ.log := by
  unfold KnowsWork at knows
  rw [log, show workDue (.handled (.action .exit) pushed :: older) = workDue older from rfl,
    due] at knows
  have work {τ : State} (stands : τ.pc = .work) (asked : τ.doSomeWork = true) :
      ∃ more σ' s last, Transition.Run (Step opts) τ more σ' ∧ σ'.log = .iterated s last :: τ.log :=
    ⟨_, _, _, _, .single (step_iff_moved.mpr (.iterate .ready stands asked)), rfl⟩
  rcases stands with stands | stands | stands | stands <;> rw [stands] at knows
  · have drained : Step opts σ (.step .ready) { σ with pc := .work } :=
      step_iff_moved.mpr (.drained .ready stands (Or.inr stopped))
    obtain ⟨more, σ', s, last, onward, log⟩ := work (τ := { σ with pc := .work }) rfl knows.symm
    exact ⟨_, σ', s, last, .cons drained onward, log⟩
  · exact work stands knows.symm
  · cases knows
  · cases knows

/-- **Work after EXIT.** -/
theorem never_works_after_exit_iff (opts : SchedulerTritonOptions) (id : Nat)
    (taken : List (Transition.Taken State Act)) (σ : State)
    (run : Transition.Run (Step opts) (State.initial id) taken σ) (handled : HandledExit σ.log) :
    (∀ more σ', Transition.Run (Step opts) σ more σ' → WorksBeforeExit σ'.log) ↔
      ExitsIdle σ.log := by
  constructor
  · intro never
    cases leaving_of_run run handled with
    | quiet pushed older first log stands stopped =>
        rw [log, exitsIdle_iff_of_first first]
        by_contra due
        rw [Bool.not_eq_false] at due
        obtain ⟨more, σ', s, last, onward, later⟩ :=
          exists_work_after_exit (knowsWork_of_run run) log due stands stopped
        exact never more σ' onward s last σ.log (later ▸ List.suffix_rfl) handled
    | worked s last pushed older first due log stands stopped =>
        have before := never [] σ (.nil σ)
        rw [log] at before
        exact (before s last _ List.suffix_rfl ⟨pushed, List.mem_cons_self⟩).elim
  · intro idle more σ' onward
    have kept := log_suffix_of_run onward
    obtain ⟨answer, member⟩ := handled
    cases leaving_of_run (run.append onward) ⟨answer, kept.subset member⟩ with
    | quiet pushed older first log stands stopped =>
        rw [log]
        exact worksBeforeExit_of_quiet first
    | worked s last pushed older first due log stands stopped =>
        -- The EXIT message is the same one, and nothing was due when it was handled.
        rw [log] at kept
        have inside : .handled (.action .exit) pushed :: older <:+ σ.log := by
          rcases List.suffix_cons_iff.mp kept with same | kept
          · rw [same]
            exact List.suffix_cons _ _
          · rcases List.suffix_cons_iff.mp kept with same | kept
            · exact same ▸ List.suffix_rfl
            · exact (first ⟨answer, kept.subset member⟩).elim
        rw [idle pushed older inside] at due
        cases due

/-- The gate opens, and the worker handles the messages in one drain. -/
def drainOf (messages : List SchedulerMessage) : List Act :=
  .openGate :: messages.map .push ++ List.replicate (3 * messages.length + 2) (.step .ready)

/-- After an EXIT message that comes alone the worker never iterates again. -/
theorem exit_alone : ∃ taken σ,
    Transition.Run (Step {}) (State.initial 0) taken σ ∧ HandledExit σ.log ∧
      ∀ more σ', Transition.Run (Step {}) σ more σ' → WorksBeforeExit σ'.log := by
  have follows : Transition.follow (next {}) (State.initial 0) (drainOf [.action .exit]) =
      some _ := rfl
  obtain ⟨taken, run, _⟩ := Transition.Run.of_follow follows
  have handled : HandledExit [.handled (.action .exit) []] := ⟨[], List.mem_cons_self⟩
  refine ⟨taken, _, run, handled, (never_works_after_exit_iff {} 0 taken _ run handled).mpr ?_⟩
  exact (exitsIdle_iff_of_first fun ⟨_, absurd⟩ => (List.not_mem_nil absurd).elim).mpr rfl

/-- A notification and EXIT arrive together: the blocks are stopped, then run. -/
theorem stopped_blocks_work : ∃ taken σ,
    Transition.Run (Step {}) (State.initial 0) taken σ ∧ σ.wrapper.blockStops = 1 ∧
      σ.log = [.iterated .ready [], .handled (.action .exit) [],
        .handled (.action .notifyInput) []] ∧ ¬ WorksBeforeExit σ.log := by
  have follows : Transition.follow (next {}) (State.initial 0)
      (drainOf [.action .notifyInput, .action .exit] ++ List.replicate 2 (.step .ready)) =
        some _ := rfl
  obtain ⟨taken, run, _⟩ := Transition.Run.of_follow follows
  refine ⟨taken, _, run, rfl, rfl, fun before => ?_⟩
  exact before _ _ _ List.suffix_rfl ⟨[], List.mem_cons_self⟩

end ThreadWrapper

end TorchDsp
