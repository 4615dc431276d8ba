import TorchDsp.Wrapper.Controller
import TorchDsp.Wrapper.Wakeups

/-! # Stopping a worker

`stop()` waits for a thread that leaves its loops as soon as it sees
`d_thread_stopped`. The gate before the loops does not look at it, so the wait
ends for every order of calls that starts the worker first, and for no other
(`TorchDsp.ThreadWrapper.System.stop_returns_iff`). Both the worker that handles
EXIT and `stop()` itself stop the blocks
(`TorchDsp.ThreadWrapper.System.blocks_stopped_once_iff`).
-/

namespace TorchDsp

namespace ThreadWrapper

/-- A stopped worker stays stopped, and does not go back to its queue. -/
theorem Step.of_stopped {opts : SchedulerTritonOptions} {σ σ' : State}
    {s : ExecutorIterationStatus} (stopped : σ.wrapper.threadStopped = true)
    (step : Step opts σ (.step s) σ') : σ'.wrapper.threadStopped = true ∧ σ'.pc ≠ .pop := by
  cases step_iff_moved.mp step with
  | ask _ stands valid running =>
      rw [stopped] at running
      cases running
  | handle _ msg stands =>
      refine ⟨?_, Pc.noConfusion⟩
      by_cases exit : msg = .action .exit
      · subst exit
        rfl
      · exact (handleMessage_threadStopped σ.wrapper exit).trans stopped
  | iterate _ stands due =>
      exact ⟨(handleWorkNotification_keeps opts σ.wrapper s).2.1.trans stopped,
        Pc.noConfusion⟩
  | _ => exact ⟨stopped, Pc.noConfusion⟩

/-- No step of the thread closes the gate. -/
theorem Step.readyToStart {opts : SchedulerTritonOptions} {σ σ' : State}
    {s : ExecutorIterationStatus} (ready : σ.wrapper.readyToStart = true)
    (step : Step opts σ (.step s) σ') : σ'.wrapper.readyToStart = true := by
  cases step_iff_moved.mp step with
  | handle _ msg stands =>
      cases msg with
      | action asked => cases asked <;> exact ready
      | _ => exact ready
  | iterate _ stands due =>
      exact (handleWorkNotification_keeps opts σ.wrapper s).1.trans ready
  | _ => exact ready

/-- A worker behind an open gate is stuck only in front of an empty queue. -/
theorem waits_of_stuck {opts : SchedulerTritonOptions} {σ : State}
    (ready : σ.wrapper.readyToStart = true) (alive : σ.pc ≠ .exited)
    (stuck : ∀ s, threadBody opts σ s = none) : σ.Waits := by
  have still := stuck .ready
  unfold threadBody at still
  cases stands : σ.pc with
  | pop =>
      simp only [stands] at still
      split at still
      · rename_i none
        split at still
        · exact ⟨stands, by assumption, none⟩
        · cases still
      · cases still
  | startGate => simp [stands, ready] at still
  | outer | drain | work =>
      simp only [stands] at still
      split at still <;> cases still
  | handle msg => simp [stands] at still
  | exited => exact (alive stands).elim

namespace System

/-! ## The end of `stop()` -/

/-- The controller waits in `stop()` for a worker that cannot move. -/
structure Deadlocked (opts : SchedulerTritonOptions) (σ : System) : Prop where
  joins : σ.pc = .join
  joinable : σ.joinable = true
  alive : σ.worker.pc ≠ .exited
  stuck : ∀ s, threadBody opts σ.worker s = none

/-- Every call of `stop()` comes after one of `start()`. -/
def StartsFirst (calls : List Call) : Prop :=
  ∀ before after, calls = before ++ .stop :: after → .start ∈ before

private theorem startsFirst_cons_iff {call : Call} {calls : List Call} :
    StartsFirst (call :: calls) ↔ call = .start ∨ call = .kill ∧ StartsFirst calls := by
  constructor
  · intro first
    cases call with
    | start => exact Or.inl rfl
    | stop => exact (List.not_mem_nil (first [] calls rfl)).elim
    | kill =>
        refine Or.inr ⟨rfl, fun before after split => ?_⟩
        have started := first (.kill :: before) after (congrArg _ split)
        exact (List.mem_cons.mp started).resolve_left Call.noConfusion
  · rintro (rfl | ⟨rfl, first⟩) before after split
    · cases before with
      | nil => cases split
      | cons head before => cases split; exact List.mem_cons_self
    · cases before with
      | nil => cases split
      | cons head before =>
          cases split
          exact List.mem_cons_of_mem _ (first before after rfl)

/-- The gate is open, is being opened, or will be before the next `stop()`. -/
inductive Startable (σ : System) : Prop
  | opened (ready : σ.worker.wrapper.readyToStart = true)
  | opening (stands : σ.pc = .startNotify ∨ σ.pc = .startOpen)
  | later (first : StartsFirst σ.calls) (stands : σ.pc = .idle ∨ σ.pc = .kill)

/-- What `stop()` relies on while it waits. -/
structure Stoppable (σ : System) : Prop where
  startable : Startable σ
  stopped : σ.pc = .stopKill ∨ σ.pc = .join → σ.worker.wrapper.threadStopped = true
  queued : σ.pc = .join → σ.worker.pc = .pop → σ.worker.wrapper.msgq ≠ []

/-- Others do not close the gate. -/
theorem Startable.mono {σ σ' : System} (startable : Startable σ) (pc : σ'.pc = σ.pc)
    (calls : σ'.calls = σ.calls) (opens : σ.worker.wrapper.readyToStart = true →
      σ'.worker.wrapper.readyToStart = true) : Startable σ' := by
  cases startable with
  | opened ready => exact .opened (opens ready)
  | opening stands => exact .opening (pc ▸ stands)
  | later first stands => exact .later (calls ▸ first) (pc ▸ stands)

/-- Where neither `start()` nor a call before it is due, the gate is open. -/
theorem Startable.ready {σ : System} (startable : Startable σ)
    (past : σ.pc ≠ .idle ∧ σ.pc ≠ .kill ∧ σ.pc ≠ .startNotify ∧ σ.pc ≠ .startOpen) :
    σ.worker.wrapper.readyToStart = true := by
  cases startable with
  | opened ready => exact ready
  | opening stands => exact (stands.elim past.2.2.1 past.2.2.2).elim
  | later _ stands => exact (stands.elim past.1 past.2.1).elim

/-- Every turn keeps what `stop()` relies on. -/
theorem Stoppable.step {opts : SchedulerTritonOptions} {σ σ' : System} {turn : Turn}
    (stoppable : Stoppable σ) (step : Step opts σ turn σ') : Stoppable σ' := by
  obtain ⟨startable, stopped, queued⟩ := stoppable
  cases step.moved with
  | worker s moved =>
      exact ⟨startable.mono rfl rfl moved.readyToStart,
        fun stops => (moved.of_stopped (stopped stops)).1,
        fun joins pops => ((moved.of_stopped (stopped (Or.inr joins))).2 pops).elim⟩
  | push msg =>
      exact ⟨startable.mono rfl rfl fun ready => ready, stopped,
        fun _ _ => List.append_ne_nil_of_right_ne_nil _ (List.cons_ne_nil _ _)⟩
  | call call rest stands calls =>
      refine ⟨?_, fun stops => ?_, fun joins => ?_⟩
      · cases startable with
        | opened ready => exact .opened ready
        | opening starts => simp [stands] at starts
        | later first _ =>
            rw [calls, startsFirst_cons_iff] at first
            rcases first with rfl | ⟨rfl, first⟩
            · exact .opening (Or.inl rfl)
            · exact .later first (Or.inr rfl)
      · cases call <;> simp [Call.entry] at stops
      · cases call <;> cases joins
  | startNotify stands => exact ⟨.opening (Or.inr rfl), by simp, by simp⟩
  | startOpen stands free => exact ⟨.opened rfl, by simp, by simp⟩
  | kill stands =>
      refine ⟨?_, by simp, by simp⟩
      cases startable with
      | opened ready => exact .opened ready
      | opening starts => simp [stands] at starts
      | later first _ => exact .later first (Or.inl rfl)
  | stopFlag stands =>
      have ready := startable.ready (by simp [stands])
      exact ⟨.opened ready, fun _ => rfl, by simp⟩
  | stopKill stands =>
      have ready := startable.ready (by simp [stands])
      exact ⟨.opened ready, fun _ => stopped (Or.inl stands),
        fun _ _ => List.append_ne_nil_of_right_ne_nil _ (List.cons_ne_nil _ _)⟩
  | join stands joinable ended | stopBlocks stands =>
      have ready := startable.ready (by simp [stands])
      exact ⟨.opened ready, by simp, by simp⟩

private theorem stoppable_of_run {opts : SchedulerTritonOptions} {id : Nat} {calls : List Call}
    {taken : List (Transition.Taken System Turn)} {σ : System} (first : StartsFirst calls)
    (run : Transition.Run (Step opts) (initial id calls) taken σ) : Stoppable σ :=
  run.invariant_of_step Stoppable ⟨.later first (Or.inl rfl), by simp [initial], by simp [initial]⟩
    fun _ _ _ step stoppable => stoppable.step step

private theorem Stoppable.not_deadlocked {opts : SchedulerTritonOptions} {σ : System}
    (stoppable : Stoppable σ) : ¬ σ.Deadlocked opts := by
  intro ⟨joins, _, alive, stuck⟩
  have ready := stoppable.startable.ready (by simp [joins])
  have waits := waits_of_stuck ready alive stuck
  exact stoppable.queued joins waits.1 waits.2.2

/-- Calls that stop a worker before they start it begin so. -/
theorem kills_before_stop {calls : List Call} (late : ¬ StartsFirst calls) :
    ∃ kills after, calls = List.replicate kills .kill ++ .stop :: after := by
  induction calls with
  | nil => exact (late fun before after absurd => by simp at absurd).elim
  | cons call rest ih =>
      rw [startsFirst_cons_iff, not_or, not_and] at late
      cases call with
      | start => exact (late.1 rfl).elim
      | stop => exact ⟨0, rest, rfl⟩
      | kill =>
          obtain ⟨kills, after, rfl⟩ := ih (late.2 rfl)
          exact ⟨kills + 1, after, rfl⟩

/-- The controller takes its next call. -/
theorem step_call {opts : SchedulerTritonOptions} {σ : System} {call : Call} {rest : List Call}
    (stands : σ.pc = .idle) (calls : σ.calls = call :: rest) :
    Step opts σ .control { σ with pc := call.entry, calls := rest } := by
  simp only [Step, next, control, stands, calls]

/-- A call of `kill()` leaves the worker where it is. -/
theorem run_kill (opts : SchedulerTritonOptions) {σ : System} {rest : List Call}
    (stands : σ.pc = .idle) (calls : σ.calls = .kill :: rest) :
    ∃ taken, Transition.Run (Step opts) σ taken
      { σ.share (·.pushMessage (.action .exit)) with calls := rest } := by
  have pushes : Step opts { σ with pc := Call.kill.entry, calls := rest } .control
      { σ.share (·.pushMessage (.action .exit)) with pc := .idle, calls := rest } := rfl
  rw [← stands] at pushes
  exact ⟨_, .cons (step_call stands calls) (.single pushes)⟩

/-- A call of `stop()` waits for the thread. -/
theorem run_stop (opts : SchedulerTritonOptions) {σ : System} {rest : List Call}
    (stands : σ.pc = .idle) (calls : σ.calls = .stop :: rest) :
    ∃ taken, Transition.Run (Step opts) σ taken
      { σ.share fun w => { w with threadStopped := true }.pushMessage (.action .exit) with
        calls := rest, pc := .join } := by
  have flags : Step opts { σ with pc := Call.stop.entry, calls := rest } .control
      { σ.share ({ · with threadStopped := true }) with pc := .stopKill, calls := rest } := rfl
  have kills : Step opts
      { σ.share ({ · with threadStopped := true }) with pc := .stopKill, calls := rest } .control
      { σ.share fun w => { w with threadStopped := true }.pushMessage (.action .exit) with
        calls := rest, pc := .join } := rfl
  exact ⟨_, .cons (step_call stands calls) (.cons flags (.single kills))⟩

/-- A call of `stop()` on a worker that waits at its gate does not return. -/
theorem exists_deadlocked (opts : SchedulerTritonOptions) (kills : Nat) (after : List Call)
    (σ : System) (stands : σ.pc = .idle)
    (calls : σ.calls = List.replicate kills .kill ++ .stop :: after) (joinable : σ.joinable = true)
    (waits : σ.worker.pc = .startGate) (closed : σ.worker.wrapper.readyToStart = false) :
    ∃ taken σ', Transition.Run (Step opts) σ taken σ' ∧ σ'.Deadlocked opts := by
  induction kills generalizing σ with
  | zero =>
      obtain ⟨taken, run⟩ := run_stop opts stands calls
      refine ⟨taken, _, run, rfl, joinable, fun ended => ?_, fun s => ?_⟩
      · exact Pc.noConfusion (waits.symm.trans ended)
      · simp [threadBody, share, ThreadWrapper.pushMessage, waits, closed]
  | succ kills ih =>
      obtain ⟨killing, killed⟩ := run_kill opts stands calls
      obtain ⟨taken, σ', onward, deadlocked⟩ :=
        ih { σ.share (·.pushMessage (.action .exit)) with
          calls := List.replicate kills .kill ++ .stop :: after } stands rfl joinable waits closed
      exact ⟨killing ++ taken, σ', killed.append onward, deadlocked⟩

/-- **When `stop()` gets stuck.** For an order of calls, `stop()` never waits for
a worker that cannot move, whatever is interleaved with the calls, exactly when
no call of `stop()` comes before `start()`. -/
theorem stop_returns_iff (opts : SchedulerTritonOptions) (id : Nat) (calls : List Call) :
    (∀ taken σ, Transition.Run (Step opts) (initial id calls) taken σ → ¬ σ.Deadlocked opts) ↔
      StartsFirst calls := by
  constructor
  · intro never
    by_contra late
    obtain ⟨kills, after, rfl⟩ := kills_before_stop late
    obtain ⟨taken, σ, run, deadlocked⟩ :=
      exists_deadlocked opts kills after (initial id _) rfl rfl rfl rfl rfl
    exact never taken σ run deadlocked
  · intro first taken σ run
    exact (stoppable_of_run first run).not_deadlocked

/-- `stop()` without `start()`. -/
theorem stop_before_start_stuck : ∃ taken σ,
    Transition.Run (Step {}) (initial 0 [.stop]) taken σ ∧ σ.Deadlocked {} := by
  obtain ⟨taken, run⟩ := run_stop {} (σ := initial 0 [.stop]) rfl rfl
  exact ⟨taken, _, run, rfl, rfl, Pc.noConfusion, fun _ => rfl⟩

/-! ## The blocks -/

/-- A transition is the last one of a call of `stop()`. -/
def returnsFromStop (t : Transition.Taken System Turn) : Bool :=
  t.label = .control && t.source.pc = .stopBlocks

/-- The number of EXIT messages that a worker has handled. -/
def exits (log : List Record) : Nat :=
  log.countP fun
    | .handled msg _ => msg = .action .exit
    | .iterated .. => false

private theorem exits_eq_zero_iff {log : List Record} : exits log = 0 ↔ ¬ HandledExit log := by
  rw [exits, List.countP_eq_zero]
  constructor
  · intro none ⟨pushed, member⟩
    exact none _ member (decide_eq_true rfl)
  · intro none record member
    cases record with
    | iterated => exact Bool.false_ne_true
    | handled msg pushed =>
        intro exit
        have same : msg = .action .exit := of_decide_eq_true exit
        exact none ⟨pushed, same ▸ member⟩

private theorem handleMessage_blockStops (w : ThreadWrapper) (msg : SchedulerMessage) :
    (w.handleMessage msg).1.blockStops =
      w.blockStops + if msg = .action .exit then 1 else 0 := by
  cases msg with
  | action asked => cases asked <;> rfl
  | _ => rfl

/-- The worker stops the blocks when it handles EXIT. -/
theorem blockStops_step {opts : SchedulerTritonOptions} {σ σ' : State}
    {s : ExecutorIterationStatus} (step : ThreadWrapper.Step opts σ (.step s) σ') :
    σ'.wrapper.blockStops + exits σ.log = σ.wrapper.blockStops + exits σ'.log := by
  cases step_iff_moved.mp step with
  | handle _ msg stands =>
      have counted : exits (.handled msg (σ.wrapper.handleMessage msg).2.1 :: σ.log) =
          exits σ.log + if msg = .action .exit then 1 else 0 := by
        simp [exits, List.countP_cons]
      change (σ.wrapper.handleMessage msg).1.blockStops + exits σ.log = _
      rw [handleMessage_blockStops]
      change _ = σ.wrapper.blockStops + exits (.handled msg _ :: σ.log)
      rw [counted]
      omega
  | iterate _ stands due =>
      have counted : exits (.iterated s (handleWorkNotification opts σ.wrapper s).2.1 :: σ.log) =
          exits σ.log := by
        simp [exits]
      change (handleWorkNotification opts σ.wrapper s).1.blockStops + exits σ.log =
        σ.wrapper.blockStops + exits (.iterated s _ :: σ.log)
      rw [(handleWorkNotification_keeps opts σ.wrapper s).2.2, counted]
  | _ => rfl

/-- Who stopped the blocks: the worker at each EXIT, the controller at the end of
each `stop()`. -/
theorem blockStops_of_run {opts : SchedulerTritonOptions} {σ σ' : System}
    {taken : List (Transition.Taken System Turn)} (run : Transition.Run (Step opts) σ taken σ') :
    σ'.worker.wrapper.blockStops + exits σ.worker.log =
      σ.worker.wrapper.blockStops + exits σ'.worker.log + taken.countP returnsFromStop := by
  induction run with
  | nil σ => rfl
  | @cons σ middle σ' turn rest step _ ih =>
      rw [List.countP_cons]
      cases step.moved with
      | @worker s worker moved =>
          have counted := blockStops_step moved
          dsimp only at ih
          simp only [returnsFromStop, reduceCtorEq, decide_false, Bool.false_and,
            Bool.false_eq_true, ↓reduceIte]
          omega
      | push msg => simpa [returnsFromStop, share, ThreadWrapper.pushMessage] using ih
      | stopBlocks stands =>
          simp [returnsFromStop, share, ThreadWrapper.stopBlocks, stands] at ih ⊢
          omega
      | call call others stands | startNotify stands | startOpen stands | kill stands
      | stopFlag stands | stopKill stands | join stands =>
          simpa [returnsFromStop, share, ThreadWrapper.pushMessage, stands] using ih

/-- `stop()` returns by stopping the blocks. -/
theorem target_of_returnsFromStop {opts : SchedulerTritonOptions}
    {t : Transition.Taken System Turn} (step : Step opts t.source t.label t.target)
    (returns : returnsFromStop t = true) :
    t.target = { t.source.share ThreadWrapper.stopBlocks with pc := .idle } := by
  rw [returnsFromStop, Bool.and_eq_true, decide_eq_true_iff, decide_eq_true_iff] at returns
  rw [returns.1] at step
  have stops : t.source.control = some t.target := step
  simp only [control, returns.2] at stops
  exact (Option.some.inj stops).symm

/-- **How often the blocks are stopped.** Every call of `stop()` that returns has
left each block stopped exactly once, exactly when the worker had handled no EXIT
message by then and no earlier call of `stop()` has returned. -/
theorem blocks_stopped_once_iff (opts : SchedulerTritonOptions) (id : Nat) (calls : List Call)
    (taken : List (Transition.Taken System Turn)) (σ : System)
    (run : Transition.Run (Step opts) (initial id calls) taken σ) :
    (∀ t ∈ taken, returnsFromStop t = true → t.target.worker.wrapper.blockStops = 1) ↔
      ∀ front t back, taken = front ++ t :: back → returnsFromStop t = true →
        ¬ HandledExit t.source.worker.log ∧ ∀ u ∈ front, returnsFromStop u = false := by
  have counted (front : List (Transition.Taken System Turn)) (t : Transition.Taken System Turn)
      (back : List (Transition.Taken System Turn)) (split : taken = front ++ t :: back)
      (returns : returnsFromStop t = true) :
      t.target.worker.wrapper.blockStops = 1 ↔
        ¬ HandledExit t.source.worker.log ∧ ∀ u ∈ front, returnsFromStop u = false := by
    subst split
    obtain ⟨before, last, _⟩ := run.split_at
    have upTo : t.source.worker.wrapper.blockStops =
        exits t.source.worker.log + front.countP returnsFromStop := by
      simpa [initial, State.initial, exits] using blockStops_of_run before
    have stops : t.target.worker.wrapper.blockStops = t.source.worker.wrapper.blockStops + 1 := by
      rw [target_of_returnsFromStop last returns]
      rfl
    rw [stops, upTo, ← exits_eq_zero_iff, Nat.add_eq_right, Nat.add_eq_zero_iff,
      List.countP_eq_zero]
    simp only [Bool.not_eq_true]
  constructor
  · intro once front t back split returns
    refine (counted front t back split returns).mp (once t ?_ returns)
    rw [split]
    exact List.mem_append_right _ List.mem_cons_self
  · intro first t member returns
    obtain ⟨front, back, split⟩ := List.append_of_mem member
    exact (counted front t back split returns).mpr (first front t back split returns)

/-- The worker sees the flag of `stop()` before it pops EXIT. -/
theorem stopped_once : ∃ taken σ, Transition.Run (Step {}) (initial 0 [.start, .stop]) taken σ ∧
    (∃ t ∈ taken, returnsFromStop t = true) ∧
    (∀ t ∈ taken, returnsFromStop t = true → t.target.worker.wrapper.blockStops = 1) ∧
    ∀ front t back, taken = front ++ t :: back → returnsFromStop t = true →
      ¬ HandledExit t.source.worker.log ∧ ∀ u ∈ front, returnsFromStop u = false := by
  let before : System := {
    worker := {
      wrapper := {
        msgq := [.action .notifyAll, .action .exit]
        threadStopped := true
        readyToStart := true }
      pc := .exited }
    calls := []
    pc := .stopBlocks
    joinable := false }
  have follows : Transition.follow (next {}) (initial 0 [.start, .stop])
      (List.replicate 5 .control ++ List.replicate 2 (.worker .ready) ++
        List.replicate 2 .control) = some before := rfl
  obtain ⟨front, run, _⟩ := Transition.Run.of_follow follows
  have counted := blockStops_of_run run
  have none : 0 = front.countP returnsFromStop := by
    simpa only [before, initial, State.initial, exits, List.countP_nil, Nat.zero_add] using counted
  have last : Step {} before .control { before.share ThreadWrapper.stopBlocks with pc := .idle } :=
    rfl
  refine ⟨_, _, run.snoc last, ⟨_, List.mem_append_right _ List.mem_cons_self, rfl⟩, ?_⟩
  suffices once : _ from ⟨once, (blocks_stopped_once_iff _ _ _ _ _ (run.snoc last)).mp once⟩
  intro t member returns
  rcases List.mem_append.mp member with early | atEnd
  · exact (List.countP_eq_zero.mp none.symm t early returns).elim
  · rw [List.mem_singleton.mp atEnd]
    rfl

/-- The worker pops EXIT and stops the blocks, and then `stop()` does. -/
theorem stopped_twice : ∃ taken σ,
    Transition.Run (Step {}) (initial 0 [.start, .stop]) taken σ ∧
      ∃ t ∈ taken, returnsFromStop t = true ∧ t.target.worker.wrapper.blockStops = 2 := by
  have follows : Transition.follow (next {}) (initial 0 [.start, .stop])
      (List.replicate 3 .control ++ List.replicate 11 (.worker .ready) ++
        List.replicate 3 .control ++ List.replicate 5 (.worker .ready) ++ [.control]) =
      some _ := rfl
  obtain ⟨front, run, _⟩ := Transition.Run.of_follow follows
  have last := run.snoc (show Step {} _ .control _ from rfl)
  exact ⟨_, _, last, _, List.mem_append_right _ List.mem_cons_self, rfl, rfl⟩

end System

end ThreadWrapper

end TorchDsp
