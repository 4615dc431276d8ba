import TorchDsp.Wrapper.Flush
import TorchDsp.Wrapper.Wakeups

/-! # Runnable work that is stranded

Outside a flush, `handle_work_notification` reports that it has nothing left to
do, whatever its iteration returned. Work that an iteration left runnable is
therefore picked up again exactly when a message already in the queue asks for
it (`TorchDsp.ThreadWrapper.ready_iterations_resumed`).
-/

namespace TorchDsp

/-- A message that makes the worker iterate or leave. -/
def SchedulerMessage.moves (msg : SchedulerMessage) : Bool :=
  msg.asksWork || msg = .action .exit

namespace ThreadWrapper

/-- FLUSHED has been reported, and no DONE message handled since. -/
def ReportedFlushed (log : List Record) : Prop :=
  ∃ newer s reports older, log = newer ++ .iterated s reports :: older ∧
    (∃ id, .flushed id ∈ reports) ∧ ∀ pushed, .handled (.action .done) pushed ∉ newer

/-- The worker is about to block although its latest iteration made progress. -/
structure State.Stranded (σ : State) : Prop where
  waits : σ.Waits
  running : σ.wrapper.threadStopped = false
  unflushed : ¬ ReportedFlushed σ.log
  ready : (statuses σ.log).head? = some .ready

/-- An iteration outside a flush that returns READY finds a message in the queue
that makes the worker iterate again or leave. -/
def Resumes (t : Transition.Taken State Act) : Prop :=
  ∀ pushed, t.target.log = .iterated .ready pushed :: t.source.log →
    t.source.wrapper.flushing = false → t.source.wrapper.threadStopped = false →
      ∃ msg ∈ t.source.wrapper.msgq, msg.moves = true

/-! ## Flushing and its records -/

/-- The worker flushes once it has handled a DONE message, and only then reports
FLUSHED. -/
structure FlushesAfterDone (σ : State) : Prop where
  flushing : σ.wrapper.flushing = true ↔ ∃ pushed, .handled (.action .done) pushed ∈ σ.log
  reported : ∀ s reports id, .iterated s reports ∈ σ.log → .flushed id ∈ reports →
    σ.wrapper.flushing = true

/-- Every step keeps the flush behind a DONE message. -/
theorem FlushesAfterDone.step {opts : SchedulerTritonOptions} {σ σ' : State} {act : Act}
    (flushes : FlushesAfterDone σ) (step : Step opts σ act σ') : FlushesAfterDone σ' := by
  rcases step.log_cases with ⟨log, flushing, _⟩ | ⟨msg, log, wrapper⟩ | ⟨s, log, wrapper⟩
  · refine ⟨?_, ?_⟩ <;> rw [log, flushing]
    · exact flushes.flushing
    · exact flushes.reported
  · refine ⟨?_, fun s reports id member reported => ?_⟩
    · rw [wrapper, log, handleMessage_flushing, flushes.flushing]
      simp only [List.mem_cons, Record.handled.injEq, exists_or, exists_and_left]
      exact or_congr ⟨fun same => ⟨same.symm, _, rfl⟩, fun same => same.1.symm⟩ Iff.rfl
    · rw [log] at member
      rw [wrapper, handleMessage_flushing]
      have earlier := (List.mem_cons.mp member).resolve_left Record.noConfusion
      exact Or.inr (flushes.reported s reports id earlier reported)
  · refine ⟨?_, fun s' reports id member reported => ?_⟩
    · rw [wrapper, log, handleWorkNotification_flushing, flushes.flushing]
      simp only [List.mem_cons, reduceCtorEq, false_or]
    · rw [log] at member
      rw [wrapper, handleWorkNotification_flushing]
      rcases List.mem_cons.mp member with same | earlier
      · cases same
        exact (mem_flushed_handleWorkNotification.mp reported).2.1
      · exact flushes.reported s' reports id earlier reported

private theorem flushesAfterDone_of_run {opts : SchedulerTritonOptions} {id : Nat}
    {taken : List (Transition.Taken State Act)} {σ : State}
    (run : Transition.Run (Step opts) (State.initial id) taken σ) : FlushesAfterDone σ :=
  run.invariant_of_step FlushesAfterDone
    ⟨⟨fun absurd => (Bool.false_ne_true absurd).elim,
      fun ⟨_, absurd⟩ => (List.not_mem_nil absurd).elim⟩,
      fun _ _ _ absurd => (List.not_mem_nil absurd).elim⟩
    fun _ _ _ step flushes => flushes.step step

/-- After the latest DONE message, FLUSHED is due or has been reported. -/
theorem flushDue_or_reported {log : List Record}
    (done : ∃ pushed, .handled (.action .done) pushed ∈ log) :
    FlushDue log ∨ ReportedFlushed log := by
  induction log with
  | nil => exact (List.not_mem_nil done.choose_spec).elim
  | cons record rest ih =>
      obtain ⟨pushed, member⟩ := done
      by_cases latest : ∃ p, record = .handled (.action .done) p
      · exact Or.inl (flushDue_cons_iff.mpr (Or.inl latest))
      · have earlier := (List.mem_cons.mp member).resolve_left
          fun same => latest ⟨pushed, same.symm⟩
        rcases ih ⟨pushed, earlier⟩ with due | ⟨newer, s, reports, older, rfl, flushed, undone⟩
        · by_cases ends : ∃ s reports id, record = .iterated s reports ∧ .flushed id ∈ reports
          · obtain ⟨s, reports, id, rfl, flushed⟩ := ends
            exact Or.inr ⟨[], s, reports, rest, rfl, ⟨id, flushed⟩, fun _ => List.not_mem_nil⟩
          · apply Or.inl
            refine flushDue_cons_iff.mpr (Or.inr ⟨due, fun s reports same id flushed => ?_⟩)
            exact ends ⟨s, reports, id, same, flushed⟩
        · refine Or.inr ⟨record :: newer, s, reports, older, rfl, flushed, fun p listed => ?_⟩
          rcases List.mem_cons.mp listed with same | inside
          · exact latest ⟨p, same.symm⟩
          · exact undone p inside

/-! ## Iterations that are resumed -/

/-- Outside a flush, a worker whose latest iteration returned READY is about to
iterate again or to leave. -/
def Onward (σ : State) : Prop :=
  (statuses σ.log).head? = some .ready → σ.wrapper.flushing = false →
    σ.wrapper.threadStopped = false →
      (∃ msg ∈ σ.wrapper.msgq, msg.moves = true) ∨ σ.Due ∨ σ.pc = .handle (.action .exit)

/-- Where READY iterations are resumed, every step keeps the worker going. -/
theorem Onward.step {opts : SchedulerTritonOptions} {σ σ' : State} {act : Act}
    (onward : Onward σ) (step : Step opts σ act σ') (resumes : Resumes ⟨σ, act, σ'⟩) :
    Onward σ' := by
  intro ready flushing running
  cases step_iff_moved.mp step with
  | push msg =>
      refine (onward ready flushing running).imp_left fun ⟨queued, member, moves⟩ => ?_
      exact ⟨queued, List.mem_append_left _ member, moves⟩
  | openGate => exact onward ready flushing running
  | requestStop => cases running
  | start s stands | leave s stands | enter s stands | ask s stands | drained s stands
  | empty s stands | idle s stands =>
      rcases onward ready flushing running with queued | due | exit
      · exact Or.inl queued
      · exact Or.inr (Or.inl (due.of_same_log step rfl))
      · rw [stands] at exit
        cases exit
  | pop s stands msg rest queue =>
      rcases onward ready flushing running with ⟨queued, member, moves⟩ | due | exit
      · rw [queue] at member
        rcases List.mem_cons.mp member with rfl | later
        · rw [SchedulerMessage.moves, Bool.or_eq_true, decide_eq_true_eq] at moves
          rcases moves with asks | exit
          · exact Or.inr (Or.inl (Or.inr ⟨queued, rfl, asks⟩))
          · exact Or.inr (Or.inr (congrArg Pc.handle exit))
        · exact Or.inl ⟨queued, later, moves⟩
      · exact Or.inr (Or.inl (due.of_same_log step rfl))
      · rw [stands] at exit
        cases exit
  | handle s msg stands =>
      have before : σ.wrapper.flushing = false := by
        rw [Bool.eq_false_iff] at flushing ⊢
        exact fun set => flushing ((handleMessage_flushing σ.wrapper msg).mpr (Or.inr set))
      have stays : msg ≠ .action .exit := by
        rintro rfl
        cases running
      rcases onward ready before ((handleMessage_threadStopped σ.wrapper stays).symm.trans running)
        with ⟨queued, member, moves⟩ | due | exit
      · exact Or.inl ⟨queued, (handleMessage_keeps σ.wrapper msg).2 queued member, moves⟩
      · exact Or.inr (Or.inl (due.of_handled step rfl))
      · rw [stands] at exit
        cases exit
        exact (stays rfl).elim
  | iterate s stands due =>
      cases ready
      have before := (handleWorkNotification_flushing opts σ.wrapper .ready).symm.trans flushing
      have same := handleWorkNotification_of_not_flushing opts before .ready
      have queued := resumes _ rfl before (by rw [← same]; exact running)
      left
      change ∃ msg ∈ (handleWorkNotification opts σ.wrapper .ready).1.msgq, _
      rw [same]
      exact queued

/-- Every state that a run passes through is reached by a run. -/
theorem run_to_target {opts : SchedulerTritonOptions} {σ σ' : State}
    {taken : List (Transition.Taken State Act)} {t : Transition.Taken State Act}
    (run : Transition.Run (Step opts) σ taken σ') (member : t ∈ taken) :
    ∃ front, Transition.Run (Step opts) σ front t.target := by
  obtain ⟨front, back, rfl⟩ := List.append_of_mem member
  obtain ⟨before, moved, _⟩ := run.split_at
  exact ⟨_, before.snoc moved⟩

/-- A worker that moves on is not stranded. -/
theorem Onward.not_stranded {opts : SchedulerTritonOptions} {id : Nat}
    {taken : List (Transition.Taken State Act)} {σ : State}
    (run : Transition.Run (Step opts) (State.initial id) taken σ) (onward : Onward σ) :
    ¬ σ.Stranded := by
  intro stranded
  have flushes := flushesAfterDone_of_run run
  cases flushing : σ.wrapper.flushing with
  | true =>
      have due := (flushDue_or_reported (flushes.flushing.mp flushing)).resolve_right
        stranded.unflushed
      exact (flush_never_stalls opts id taken σ run due).2 stranded.waits
  | false =>
      rcases onward stranded.ready flushing stranded.running with ⟨msg, queued, _⟩ | due | exit
      · rw [stranded.waits.2.2] at queued
        exact List.not_mem_nil queued
      · exact (patient_of_run run).not_due stranded.waits due
      · rw [stranded.waits.1] at exit
        cases exit

/-! ## Iterations that are not resumed -/

/-- The thread gets from one state to another without the help of others. -/
def Alone (opts : SchedulerTritonOptions) (σ σ' : State) : Prop :=
  ∃ more, Transition.Run (Step opts) σ more σ' ∧ ∀ u ∈ more, ∃ s, u.label = .step s

/-- A step of the thread needs no help. -/
theorem Alone.cons {opts : SchedulerTritonOptions} {σ σ' σ'' : State} {s : ExecutorIterationStatus}
    (moved : Moved opts σ (.step s) σ') (alone : Alone opts σ' σ'') : Alone opts σ σ'' := by
  obtain ⟨more, run, steps⟩ := alone
  refine ⟨_, .cons (step_iff_moved.mpr moved) run, fun u member => ?_⟩
  rcases List.mem_cons.mp member with rfl | later
  · exact ⟨s, rfl⟩
  · exact steps u later

/-- To stay takes no help. -/
theorem Alone.refl (opts : SchedulerTritonOptions) (σ : State) : Alone opts σ σ :=
  ⟨[], .nil σ, fun _ absurd => (List.not_mem_nil absurd).elim⟩

/-- What a worker that has nothing to do keeps. -/
structure Unchanged (σ σ' : State) : Prop where
  stopped : σ'.wrapper.threadStopped = σ.wrapper.threadStopped
  flushing : σ'.wrapper.flushing = σ.wrapper.flushing
  statuses : statuses σ'.log = statuses σ.log

private theorem handleMessage_of_still (w : ThreadWrapper) {msg : SchedulerMessage}
    (still : msg.moves = false) : (w.handleMessage msg).1 = w := by
  cases msg with
  | action asked => cases asked <;> first | rfl | cases still
  | _ => rfl

/-- A worker that finds no message that moves it drains its queue and gives up. -/
theorem exists_given_up (opts : SchedulerTritonOptions) {σ : State} (stands : σ.pc = .drain)
    (valid : σ.valid = true) (idle : σ.doSomeWork = false)
    (running : σ.wrapper.threadStopped = false)
    (still : ∀ msg ∈ σ.wrapper.msgq, msg.moves = false)
    (asked : σ.wrapper.msgq = [] → σ.blockingQueue = false) :
    ∃ σ', Alone opts σ σ' ∧ Unchanged σ σ' ∧ σ'.pc = .outer ∧ σ'.blockingQueue = true ∧
      σ'.wrapper.msgq = [] := by
  generalize queue : σ.wrapper.msgq = messages
  induction messages generalizing σ with
  | nil =>
      refine ⟨_, .cons (.ask .ready stands valid running) <|
        .cons (.empty .ready rfl queue (asked queue)) <|
        .cons (.drained .ready rfl (Or.inl rfl)) <|
        .cons (.idle .ready rfl idle) <| .refl opts _, ⟨rfl, rfl, rfl⟩, rfl, rfl, queue⟩
  | cons msg rest ih =>
      have quiet := still msg (queue ▸ List.mem_cons_self)
      have asks : msg.asksWork = false := (Bool.or_eq_false_iff.mp quiet).1
      have same := handleMessage_of_still { σ.wrapper with msgq := rest } quiet
      obtain ⟨σ', alone, ⟨stopped, flushing, kept⟩, ends⟩ := @ih
        { σ with
          wrapper := ({ σ.wrapper with msgq := rest }.handleMessage msg).1
          pc := .drain, valid := true, blockingQueue := false
          doSomeWork := σ.doSomeWork || msg.asksWork
          log := .handled msg ({ σ.wrapper with msgq := rest }.handleMessage msg).2.1 :: σ.log }
        rfl rfl (by rw [idle, asks]; rfl) (by rw [same]; exact running)
        (by
          rw [same]
          exact fun later member => still later (queue ▸ List.mem_cons_of_mem msg member))
        (fun _ => rfl) (by rw [same])
      refine ⟨σ', .cons (.ask .ready stands valid running) <|
        .cons (.pop .ready rfl msg rest queue) <| .cons (.handle .ready msg rfl) alone,
        ⟨?_, ?_, kept⟩, ends⟩
      · rw [stopped, same]
      · rw [flushing, same]

/-- Two stretches without help are one. -/
theorem Alone.trans {opts : SchedulerTritonOptions} {σ σ' σ'' : State} (front : Alone opts σ σ')
    (back : Alone opts σ' σ'') : Alone opts σ σ'' := by
  obtain ⟨taken, run, first⟩ := front
  obtain ⟨more, onward, second⟩ := back
  exact ⟨taken ++ more, run.append onward, fun u member =>
    (List.mem_append.mp member).elim (first u) (second u)⟩

/-- On an empty queue, a worker between two passes comes to block. -/
theorem waits_of_empty (opts : SchedulerTritonOptions) {σ : State} (stands : σ.pc = .outer)
    (blocking : σ.blockingQueue = true) (running : σ.wrapper.threadStopped = false)
    (none : σ.wrapper.msgq = []) : ∃ σ', Alone opts σ σ' ∧ Unchanged σ σ' ∧ σ'.Waits :=
  ⟨_, .cons (.enter .ready stands running) <| .cons (.ask .ready rfl rfl running) <| .refl opts _,
    ⟨rfl, rfl, rfl⟩, rfl, blocking, none⟩

/-- A worker between two passes that no message moves comes to block. -/
theorem exists_waits (opts : SchedulerTritonOptions) {σ : State} (stands : σ.pc = .outer)
    (blocking : σ.blockingQueue = true) (running : σ.wrapper.threadStopped = false)
    (still : ∀ msg ∈ σ.wrapper.msgq, msg.moves = false) :
    ∃ σ', Alone opts σ σ' ∧ Unchanged σ σ' ∧ σ'.Waits := by
  by_cases none : σ.wrapper.msgq = []
  · exact waits_of_empty opts stands blocking running none
  · obtain ⟨τ, drains, ⟨stopped, flushing, kept⟩, outside, blocks, empty⟩ := exists_given_up opts
      (σ := { σ with pc := .drain, valid := true, doSomeWork := false }) rfl rfl rfl running still
      fun absurd => (none absurd).elim
    obtain ⟨σ', waits, ⟨stopped', flushing', kept'⟩, ends⟩ :=
      waits_of_empty opts outside blocks (stopped.trans running) empty
    exact ⟨σ', .cons (.enter .ready stands running) (drains.trans waits),
      ⟨stopped'.trans stopped, flushing'.trans flushing, kept'.trans kept⟩, ends⟩

/-- **Which runnable work is resumed.** Where every READY iteration outside a
flush finds a message that moves the worker on, the worker is never stranded;
after one that finds none, it strands itself. -/
theorem ready_iterations_resumed (opts : SchedulerTritonOptions) (id : Nat)
    (taken : List (Transition.Taken State Act)) (σ : State)
    (run : Transition.Run (Step opts) (State.initial id) taken σ) :
    ((∀ t ∈ taken, Resumes t) → ∀ t ∈ taken, ¬ t.target.Stranded) ∧
      ∀ t ∈ taken, ¬ Resumes t → ∃ σ', Alone opts t.target σ' ∧ σ'.Stranded := by
  constructor
  · intro resumes t member
    obtain ⟨_, along⟩ := run.invariant Onward (fun absurd => by cases absurd)
      fun t member step onward => Onward.step onward step (resumes t member)
    obtain ⟨front, reached⟩ := run_to_target run member
    exact (along t member).2.not_stranded reached
  · intro t member forsaken
    obtain ⟨front, reached⟩ := run_to_target run member
    unfold Resumes at forsaken
    push Not at forsaken
    obtain ⟨pushed, log, idle, running, still⟩ := forsaken
    obtain ⟨_, stands, due, target⟩ := (run.step_of_mem t member).of_iterated log
    have same := handleWorkNotification_of_not_flushing opts idle .ready
    have wrapper : t.target.wrapper = t.source.wrapper := (congrArg State.wrapper target).trans same
    have blocking : t.target.blockingQueue = true := by
      rw [target]
      simp [handleWorkNotification, idle]
    obtain ⟨σ', alone, ⟨stopped, flushing, kept⟩, waits⟩ := exists_waits opts
      (congrArg State.pc target) blocking (wrapper ▸ running)
      (by simpa only [wrapper, ne_eq, Bool.not_eq_true] using still)
    refine ⟨σ', alone, waits, by rw [stopped, wrapper, running], ?_, by rw [kept, log]; rfl⟩
    rintro ⟨newer, s, reports, older, split, ⟨reporter, flushed⟩, _⟩
    obtain ⟨more, onward, _⟩ := alone
    have set := (flushesAfterDone_of_run (reached.append onward)).reported s reports reporter
      (split ▸ List.mem_append_right newer List.mem_cons_self) flushed
    rw [flushing, wrapper, idle] at set
    cases set

/-- Only a step that returns READY may leave work behind. -/
theorem resumes_of_label {opts : SchedulerTritonOptions} {t : Transition.Taken State Act}
    (step : Step opts t.source t.label t.target) (other : t.label ≠ .step .ready) : Resumes t := by
  intro pushed log
  exact (other (step.of_iterated log).1).elim

/-- A READY iteration with a notification in the queue. -/
theorem notified_work_resumed : ∃ taken σ,
    Transition.Run (Step {}) (State.initial 0) taken σ ∧ statuses σ.log = [.ready] ∧
      ∀ t ∈ taken, ¬ t.target.Stranded := by
  have follows : Transition.follow (next {}) (State.initial 0)
      ([.openGate, .push (.action .notifyInput)] ++ List.replicate 8 (.step .blkdIn) ++
        [.push (.action .notifyOutput)]) = some _ := rfl
  obtain ⟨taken, run, labels⟩ := Transition.Run.of_follow follows
  have whole := run.snoc (show Step {} _ (.step .ready) _ from rfl)
  refine ⟨_, _, whole, rfl, (ready_iterations_resumed {} 0 _ _ whole).1 fun t member => ?_⟩
  rcases List.mem_append.mp member with earlier | last
  · apply resumes_of_label (run.step_of_mem t earlier)
    have listed := List.mem_map_of_mem (f := Transition.Taken.label) earlier
    rw [labels] at listed
    intro ready
    rw [ready] at listed
    exact absurd listed (by decide)
  · cases List.mem_singleton.mp last
    exact fun _ _ _ _ => ⟨_, List.mem_cons_self, rfl⟩

/-- One iteration returns READY, and nobody sends another message. -/
theorem ready_work_stranded : ∃ taken σ,
    Transition.Run (Step {}) (State.initial 0) taken σ ∧ σ.Stranded := by
  have follows : Transition.follow (next {}) (State.initial 0)
      ([.openGate, .push (.action .notifyInput)] ++ List.replicate 11 (.step .ready)) =
        some { wrapper := { readyToStart := true }, pc := .pop
               log := [.iterated .ready [], .handled (.action .notifyInput) []] } := rfl
  obtain ⟨taken, run, _⟩ := Transition.Run.of_follow follows
  refine ⟨taken, _, run, ⟨rfl, rfl, rfl⟩, rfl, ?_, rfl⟩
  rintro ⟨newer, s, reports, older, split, ⟨id, flushed⟩, _⟩
  have flushing := (flushesAfterDone_of_run run).reported s reports id
    (split ▸ List.mem_append_right newer List.mem_cons_self) flushed
  cases flushing

end ThreadWrapper

end TorchDsp
