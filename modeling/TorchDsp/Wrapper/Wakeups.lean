import TorchDsp.Wrapper.Steps

/-! # Wake-ups

A message that asks for work makes an iteration due, and the worker does not
block before it has made the iteration
(`TorchDsp.ThreadWrapper.notifications_followed`). While a flush is under way it
does not block at all, since every iteration that does not end the flush wakes
the worker again (`TorchDsp.ThreadWrapper.flush_never_stalls`).
-/

namespace TorchDsp

namespace ThreadWrapper

/-- The worker is about to block in `pop_message` on an empty queue. -/
def State.Waits (σ : State) : Prop :=
  σ.pc = .pop ∧ σ.blockingQueue = true ∧ σ.wrapper.msgq = []

/-- An iteration is about to be made, or the message in hand asks for one. -/
def State.Due (σ : State) : Prop :=
  workDue σ.log = true ∨ ∃ msg, σ.pc = .handle msg ∧ msg.asksWork = true

/-- The queue holds a message that asks for work. -/
def State.Woken (σ : State) : Prop :=
  ∃ msg ∈ σ.wrapper.msgq, msg.asksWork = true

/-! ## Blocking -/

/-- A worker that may block has nothing to do. -/
structure Patient (σ : State) : Prop where
  knows : KnowsWork σ
  workless : σ.blockingQueue = true → workDue σ.log = false
  handless : σ.blockingQueue = true → ∀ msg, σ.pc ≠ .handle msg

/-- Every step keeps a worker from blocking with something to do. -/
theorem Patient.step {opts : SchedulerTritonOptions} {σ σ' : State} {act : Act}
    (patient : Patient σ) (step : Step opts σ act σ') : Patient σ' := by
  refine ⟨patient.knows.step step, ?_, ?_⟩
  · intro blocking
    cases step_iff_moved.mp step with
    | pop => cases blocking
    | handle s msg stands => exact (patient.handless blocking msg stands).elim
    | iterate => rfl
    | idle s stands none =>
        rw [← Bool.and_false σ.pc.inPass, ← none]
        exact patient.knows
    | _ => exact patient.workless blocking
  · intro blocking
    cases step_iff_moved.mp step with
    | push | openGate | requestStop => exact patient.handless blocking
    | pop => cases blocking
    | _ => exact fun _ absurd => by cases absurd

/-- Along every run a worker that may block has nothing to do. -/
theorem patient_of_run {opts : SchedulerTritonOptions} {id : Nat}
    {taken : List (Transition.Taken State Act)} {σ : State}
    (run : Transition.Run (Step opts) (State.initial id) taken σ) : Patient σ :=
  run.invariant_of_step Patient ⟨rfl, fun _ => rfl, fun _ _ absurd => by cases absurd⟩
    fun _ _ _ step patient => patient.step step

/-- A worker that waits has no iteration due. -/
theorem Patient.not_due {σ : State} (patient : Patient σ) (waits : σ.Waits) : ¬ σ.Due := by
  rintro (due | ⟨msg, stands, _⟩)
  · rw [patient.workless waits.2.1] at due
    cases due
  · exact patient.handless waits.2.1 msg stands

/-! ## Notifications -/

/-- A transition pops a message. -/
def Pops (t : Transition.Taken State Act) (msg : SchedulerMessage) : Prop :=
  t.source.pc = .pop ∧ t.target.pc = .handle msg

/-- A transition calls `run_one_iteration`. -/
def Iterates (t : Transition.Taken State Act) : Prop :=
  ∃ s pushed, t.target.log = .iterated s pushed :: t.source.log

/-- A transition begins to drain the queue. -/
def Drains (t : Transition.Taken State Act) : Prop :=
  t.source.pc = .outer ∧ t.target.pc = .drain

/-- An iteration that is due is made or stays due. -/
theorem State.Due.step {opts : SchedulerTritonOptions} {σ σ' : State} {act : Act} (due : σ.Due)
    (step : Step opts σ act σ') : Iterates ⟨σ, act, σ'⟩ ∨ σ'.Due := by
  have kept (log : σ'.log = σ.log) (away : ∀ msg, σ.pc ≠ .handle msg) : σ'.Due := by
    rcases due with due | ⟨msg, stands, _⟩
    · exact Or.inl (log ▸ due)
    · exact (away msg stands).elim
  cases step_iff_moved.mp step with
  | push | openGate | requestStop => exact Or.inr due
  | handle s msg stands =>
      refine Or.inr (Or.inl ?_)
      change (msg.asksWork || workDue σ.log) = true
      rw [Bool.or_eq_true]
      rcases due with due | ⟨asked, same, asks⟩
      · exact Or.inr due
      · rw [stands] at same
        cases same
        exact Or.inl asks
  | iterate s stands => exact Or.inl ⟨s, _, rfl⟩
  | start s stands | leave s stands | enter s stands | ask s stands | drained s stands
  | empty s stands | pop s stands | idle s stands =>
      exact Or.inr (kept rfl fun msg => by rw [stands]; exact Pc.noConfusion)

/-- A step that records nothing leaves the iteration due. -/
theorem State.Due.of_same_log {opts : SchedulerTritonOptions} {σ σ' : State} {act : Act}
    (due : σ.Due) (step : Step opts σ act σ') (same : σ'.log = σ.log) : σ'.Due := by
  refine (due.step step).resolve_left fun ⟨s, pushed, log⟩ => ?_
  exact List.cons_ne_self _ _ (log.symm.trans same)

/-- So does one that handles a message. -/
theorem State.Due.of_handled {opts : SchedulerTritonOptions} {σ σ' : State} {act : Act}
    {msg : SchedulerMessage} {pushed : List MonitorMessage} (due : σ.Due)
    (step : Step opts σ act σ') (handled : σ'.log = .handled msg pushed :: σ.log) : σ'.Due := by
  refine (due.step step).resolve_left fun ⟨s, reports, log⟩ => ?_
  exact Record.noConfusion (List.cons.inj (log.symm.trans handled)).1

/-- A worker with an iteration due makes it before it blocks. -/
theorem State.Due.followed {opts : SchedulerTritonOptions} {σ σ' : State}
    {taken : List (Transition.Taken State Act)} (due : σ.Due)
    (run : Transition.Run (Step opts) σ taken σ') (idle : ¬ σ'.Due) : ∃ u ∈ taken, Iterates u := by
  induction run with
  | nil σ => exact (idle due).elim
  | cons moved _ ih =>
      rcases due.step moved with iterates | due
      · exact ⟨_, List.mem_cons_self, iterates⟩
      · obtain ⟨u, later, iterates⟩ := ih due idle
        exact ⟨u, List.mem_cons_of_mem _ later, iterates⟩

/-- Between two passes the worker drains its queue before it iterates. -/
theorem drains_before_iterates {opts : SchedulerTritonOptions} {σ σ' : State}
    {middle : List (Transition.Taken State Act)} {u : Transition.Taken State Act}
    (run : Transition.Run (Step opts) σ middle σ') (moved : Step opts σ' u.label u.target)
    (source : u.source = σ') (outside : σ.pc = .outer ∨ σ.pc = .exited) (iterates : Iterates u) :
    ∃ d ∈ middle, Drains d := by
  induction run with
  | nil σ =>
      obtain ⟨s, pushed, log⟩ := iterates
      rw [source] at log
      rw [(moved.of_iterated log).2.1] at outside
      simp at outside
  | @cons before between after act rest first onward ih =>
      by_cases drains : Drains ⟨before, act, between⟩
      · exact ⟨_, List.mem_cons_self, drains⟩
      · have stays : between.pc = .outer ∨ between.pc = .exited := by
          cases step_iff_moved.mp first with
          | push | openGate | requestStop => exact outside
          | leave => exact Or.inr rfl
          | enter s stands => exact (drains ⟨stands, rfl⟩).elim
          | start s stands | ask s stands | drained s stands | empty s stands | pop s stands
          | handle s msg stands | iterate s stands | idle s stands => simp [stands] at outside
        obtain ⟨d, later, drains⟩ := ih moved source stays
        exact ⟨d, List.mem_cons_of_mem _ later, drains⟩

/-- **No notification is lost.** When the worker is about to block, an iteration
has followed every message that asked for work; and it makes at most one
iteration for each drain of its queue. -/
theorem notifications_followed (opts : SchedulerTritonOptions) (id : Nat)
    (taken : List (Transition.Taken State Act)) (σ : State)
    (run : Transition.Run (Step opts) (State.initial id) taken σ) :
    (σ.Waits → ∀ front t back msg, taken = front ++ t :: back → Pops t msg →
      msg.asksWork = true → ∃ u ∈ back, Iterates u) ∧
    ∀ front t middle u back, taken = front ++ t :: (middle ++ u :: back) → Iterates t →
      Iterates u → ∃ d ∈ middle, Drains d := by
  constructor
  · intro waits front t back msg split pops asks
    subst split
    obtain ⟨_, _, onward⟩ := run.split_at
    have due : t.target.Due := Or.inr ⟨msg, pops.2, asks⟩
    exact due.followed onward ((patient_of_run run).not_due waits)
  · intro front t middle u back split first second
    subst split
    obtain ⟨_, moved, onward⟩ := run.split_at
    obtain ⟨between, again, _⟩ := onward.split_at
    obtain ⟨s, pushed, log⟩ := first
    have outside : t.target.pc = .outer := congrArg State.pc (moved.of_iterated log).2.2.2
    exact drains_before_iterates between again rfl (Or.inl outside) second

/-- A notification arrives, then another while the worker iterates. -/
theorem two_notifications_followed : ∃ taken σ,
    Transition.Run (Step {}) (State.initial 0) taken σ ∧ σ.Waits ∧
      ∀ front t back msg, taken = front ++ t :: back → Pops t msg → msg.asksWork = true →
        ∃ u ∈ back, Iterates u := by
  have follows : Transition.follow (next {}) (State.initial 0)
      ([.openGate, .push (.action .notifyInput)] ++ List.replicate 7 (.step .ready) ++
        .push (.action .notifyOutput) :: List.replicate 12 (.step .blkdIn)) = some _ := rfl
  obtain ⟨taken, run, _⟩ := Transition.Run.of_follow follows
  exact ⟨taken, _, run, ⟨rfl, rfl, rfl⟩,
    (notifications_followed {} 0 taken _ run).1 ⟨rfl, rfl, rfl⟩⟩

/-! ## Flushing -/

/-- A DONE message has been handled and FLUSHED has not been pushed for it. -/
def FlushDue (log : List Record) : Prop :=
  ∃ newer pushed older, log = newer ++ .handled (.action .done) pushed :: older ∧
    ∀ s reports, .iterated s reports ∈ newer → ∀ id, .flushed id ∉ reports

/-- A record makes FLUSHED due, leaves it due, or reports it. -/
theorem flushDue_cons_iff {record : Record} {log : List Record} :
    FlushDue (record :: log) ↔ (∃ pushed, record = .handled (.action .done) pushed) ∨
      FlushDue log ∧ ∀ s reports, record = .iterated s reports → ∀ id, .flushed id ∉ reports := by
  constructor
  · rintro ⟨newer, pushed, older, split, unflushed⟩
    cases newer with
    | nil => cases split; exact Or.inl ⟨pushed, rfl⟩
    | cons latest newer =>
        cases split
        refine Or.inr ⟨⟨newer, pushed, older, rfl, fun s reports member =>
          unflushed s reports (List.mem_cons_of_mem _ member)⟩, fun s reports same => ?_⟩
        subst same
        exact unflushed s reports List.mem_cons_self
  · rintro (⟨pushed, rfl⟩ | ⟨⟨newer, pushed, older, rfl, unflushed⟩, kept⟩)
    · exact ⟨[], pushed, log, rfl, fun _ _ absurd => (List.not_mem_nil absurd).elim⟩
    · refine ⟨record :: newer, pushed, older, rfl, fun s reports member => ?_⟩
      rcases List.mem_cons.mp member with same | inside
      · exact kept s reports same.symm
      · exact unflushed s reports inside

/-- An iteration that does not end a flush wakes the worker again. -/
theorem woken_of_unflushed {opts : SchedulerTritonOptions} {w : ThreadWrapper}
    {s : ExecutorIterationStatus} (flushing : w.flushing = true)
    (unflushed : ∀ id, .flushed id ∉ (handleWorkNotification opts w s).2.1) :
    .action .notifyAll ∈ (handleWorkNotification opts w s).1.msgq := by
  have short : ¬ (opts.flush = true → opts.flushCount ≤ w.flushCnt + 1) := fun due =>
    unflushed w.id (mem_flushed_handleWorkNotification.mpr ⟨rfl, flushing, due⟩)
  rw [Classical.not_imp] at short
  rw [handleWorkNotification_fst, if_pos ⟨flushing, short.1⟩, if_neg short.2]
  exact List.mem_append_right _ List.mem_cons_self

/-- While FLUSHED is due, the worker is flushing, and is woken or about to
iterate. -/
structure Awake (σ : State) : Prop where
  flushing : σ.wrapper.flushing = true
  wakeful : σ.Woken ∨ σ.Due

private theorem awake_step {opts : SchedulerTritonOptions} {σ σ' : State} {act : Act}
    (awake : FlushDue σ.log → Awake σ) (step : Step opts σ act σ') (due : FlushDue σ'.log) :
    Awake σ' := by
  have kept (before : Awake σ) (flushing : σ'.wrapper.flushing = σ.wrapper.flushing)
      (queue : ∀ msg ∈ σ.wrapper.msgq, msg ∈ σ'.wrapper.msgq) (log : σ'.log = σ.log) :
      Awake σ' := by
    refine ⟨flushing.trans before.flushing, before.wakeful.imp ?_ fun due => ?_⟩
    · exact fun ⟨msg, queued, asks⟩ => ⟨msg, queue msg queued, asks⟩
    · exact due.of_same_log step log
  cases step_iff_moved.mp step with
  | push msg => exact kept (awake due) rfl (fun _ => List.mem_append_left _) rfl
  | openGate | requestStop | start | leave | enter | ask | drained | empty | idle =>
      exact kept (awake due) rfl (fun _ member => member) rfl
  | pop s stands msg rest queue =>
      obtain ⟨flushing, ⟨queued, member, asks⟩ | work | ⟨asked, absurd, _⟩⟩ := awake due
      · rw [queue] at member
        rcases List.mem_cons.mp member with rfl | later
        · exact ⟨flushing, Or.inr (Or.inr ⟨queued, rfl, asks⟩)⟩
        · exact ⟨flushing, Or.inl ⟨queued, later, asks⟩⟩
      · exact ⟨flushing, Or.inr (Or.inl work)⟩
      · rw [stands] at absurd
        cases absurd
  | handle s msg stands =>
      rcases flushDue_cons_iff.mp due with ⟨pushed, done⟩ | ⟨earlier, _⟩
      · cases done
        exact ⟨rfl, Or.inr (Or.inl rfl)⟩
      · obtain ⟨flushing, wakeful⟩ := awake earlier
        have keeps := handleMessage_keeps σ.wrapper msg
        refine ⟨keeps.1 flushing, wakeful.imp ?_ fun due => due.of_handled step rfl⟩
        exact fun ⟨queued, member, asks⟩ => ⟨queued, keeps.2 queued member, asks⟩
  | iterate s stands =>
      rcases flushDue_cons_iff.mp due with ⟨pushed, absurd⟩ | ⟨earlier, unflushed⟩
      · cases absurd
      · have flushing := (awake earlier).flushing
        refine ⟨(handleWorkNotification_flushing opts σ.wrapper s).trans flushing, Or.inl ?_⟩
        exact ⟨_, woken_of_unflushed flushing (unflushed s _ rfl), rfl⟩

/-- **A flush does not stall.** From a DONE message until FLUSHED is pushed for
it, the worker is woken or about to iterate, and never blocks. -/
theorem flush_never_stalls (opts : SchedulerTritonOptions) (id : Nat)
    (taken : List (Transition.Taken State Act)) (σ : State)
    (run : Transition.Run (Step opts) (State.initial id) taken σ) (due : FlushDue σ.log) :
    (σ.Woken ∨ σ.Due) ∧ ¬ σ.Waits := by
  have awake := run.invariant_of_step (fun τ => FlushDue τ.log → Awake τ)
    (fun ⟨newer, _, _, absurd, _⟩ => (List.append_ne_nil_of_right_ne_nil newer
      (List.cons_ne_nil _ _) absurd.symm).elim)
    fun _ _ _ step awake => awake_step awake step
  refine ⟨(awake due).wakeful, fun waits => ?_⟩
  rcases (awake due).wakeful with ⟨msg, queued, _⟩ | work
  · rw [waits.2.2] at queued
    exact List.not_mem_nil queued
  · exact (patient_of_run run).not_due waits work

/-- Two iterations into a flush that takes three. -/
theorem unfinished_flush : ∃ taken σ,
    Transition.Run (Step { flushCount := 3 }) (State.initial 0) taken σ ∧
      σ.wrapper.flushCnt = 2 ∧ (σ.Woken ∨ σ.Due) ∧ ¬ σ.Waits := by
  have follows : Transition.follow (next { flushCount := 3 }) (State.initial 0)
      ([.openGate, .push (.action .done)] ++ List.replicate 20 (.step .blkdIn)) = some _ := rfl
  obtain ⟨taken, run, _⟩ := Transition.Run.of_follow follows
  have due : FlushDue ((List.replicate 2
      [.iterated .blkdIn [], .handled (.action .notifyAll) []]).flatten ++
        [.handled (.action .done) []]) :=
    ⟨_, [], [], rfl, by simp⟩
  exact ⟨taken, _, run, rfl, flush_never_stalls _ 0 taken _ run due⟩

end ThreadWrapper

end TorchDsp
