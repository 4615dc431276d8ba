import TorchDsp.Wrapper.Basic

/-! # The steps of the worker

Everything that can happen to a worker, one case for each place of its thread
(`TorchDsp.ThreadWrapper.Moved`). Messages that ask for work set `do_some_work`;
the iteration they ask for is due until it is made.
-/

namespace TorchDsp

/-- NOTIFY_INPUT, NOTIFY_OUTPUT, NOTIFY_ALL and DONE ask for an iteration. -/
def SchedulerMessage.asksWork : SchedulerMessage → Bool
  | .action .notifyInput | .action .notifyOutput | .action .notifyAll | .action .done => true
  | _ => false

namespace ThreadWrapper

/-- The ways in which a worker moves on. -/
inductive Moved (opts : SchedulerTritonOptions) (σ : State) : Act → State → Prop
  | push (msg : SchedulerMessage) :
      Moved opts σ (.push msg) { σ with wrapper := σ.wrapper.pushMessage msg }
  | openGate :
      Moved opts σ .openGate { σ with wrapper := { σ.wrapper with readyToStart := true } }
  | requestStop :
      Moved opts σ .requestStop { σ with wrapper := { σ.wrapper with threadStopped := true } }
  | start (s : ExecutorIterationStatus) (stands : σ.pc = .startGate)
      (ready : σ.wrapper.readyToStart = true) : Moved opts σ (.step s) { σ with pc := .outer }
  | leave (s : ExecutorIterationStatus) (stands : σ.pc = .outer)
      (stopped : σ.wrapper.threadStopped = true) :
      Moved opts σ (.step s) { σ with pc := .exited }
  | enter (s : ExecutorIterationStatus) (stands : σ.pc = .outer)
      (running : σ.wrapper.threadStopped = false) :
      Moved opts σ (.step s) { σ with pc := .drain, valid := true, doSomeWork := false }
  | ask (s : ExecutorIterationStatus) (stands : σ.pc = .drain) (valid : σ.valid = true)
      (running : σ.wrapper.threadStopped = false) :
      Moved opts σ (.step s) { σ with pc := .pop }
  | drained (s : ExecutorIterationStatus) (stands : σ.pc = .drain)
      (ends : σ.valid = false ∨ σ.wrapper.threadStopped = true) :
      Moved opts σ (.step s) { σ with pc := .work }
  | empty (s : ExecutorIterationStatus) (stands : σ.pc = .pop) (none : σ.wrapper.msgq = [])
      (nonblocking : σ.blockingQueue = false) :
      Moved opts σ (.step s) { σ with pc := .drain, valid := false }
  | pop (s : ExecutorIterationStatus) (stands : σ.pc = .pop) (msg : SchedulerMessage)
      (rest : List SchedulerMessage) (queue : σ.wrapper.msgq = msg :: rest) :
      Moved opts σ (.step s) { σ with
        wrapper := { σ.wrapper with msgq := rest }
        pc := .handle msg, valid := true, blockingQueue := false }
  | handle (s : ExecutorIterationStatus) (msg : SchedulerMessage) (stands : σ.pc = .handle msg) :
      Moved opts σ (.step s) { σ with
        wrapper := (σ.wrapper.handleMessage msg).1
        pc := .drain, doSomeWork := σ.doSomeWork || msg.asksWork
        log := .handled msg (σ.wrapper.handleMessage msg).2.1 :: σ.log }
  | iterate (s : ExecutorIterationStatus) (stands : σ.pc = .work) (due : σ.doSomeWork = true) :
      Moved opts σ (.step s) { σ with
        wrapper := (handleWorkNotification opts σ.wrapper s).1
        pc := .outer
        blockingQueue := σ.blockingQueue || !(handleWorkNotification opts σ.wrapper s).2.2
        log := .iterated s (handleWorkNotification opts σ.wrapper s).2.1 :: σ.log }
  | idle (s : ExecutorIterationStatus) (stands : σ.pc = .work) (none : σ.doSomeWork = false) :
      Moved opts σ (.step s) { σ with pc := .outer, blockingQueue := true }

/-- A message has the worker iterate when it asks for work. -/
@[simp] theorem handleMessage_work (w : ThreadWrapper) (msg : SchedulerMessage) :
    (w.handleMessage msg).2.2 = msg.asksWork := by
  cases msg with
  | action asked => cases asked <;> rfl
  | msgportMessage | parameterQuery | parameterChange | other => rfl

/-- Only DONE changes what the worker knows about a flush. -/
theorem handleMessage_of_ne_done (w : ThreadWrapper) {msg : SchedulerMessage}
    (other : msg ≠ .action .done) : (w.handleMessage msg).1.flushing = w.flushing ∧
      (w.handleMessage msg).1.flushCnt = w.flushCnt := by
  cases msg with
  | action asked => cases asked <;> first | exact ⟨rfl, rfl⟩ | exact (other rfl).elim
  | _ => exact ⟨rfl, rfl⟩

/-- A worker flushes after a DONE message, or if it did before. -/
theorem handleMessage_flushing (w : ThreadWrapper) (msg : SchedulerMessage) :
    (w.handleMessage msg).1.flushing = true ↔ msg = .action .done ∨ w.flushing = true := by
  by_cases done : msg = .action .done
  · subst done
    exact iff_of_true rfl (Or.inl rfl)
  · rw [(handleMessage_of_ne_done w done).1]
    exact (or_iff_right done).symm

/-- No message but EXIT stops the thread. -/
theorem handleMessage_threadStopped (w : ThreadWrapper) {msg : SchedulerMessage}
    (stays : msg ≠ .action .exit) : (w.handleMessage msg).1.threadStopped = w.threadStopped := by
  cases msg with
  | action asked => cases asked <;> first | rfl | exact (stays rfl).elim
  | _ => rfl

/-- A message leaves the worker flushing, and leaves what is queued. -/
theorem handleMessage_keeps (w : ThreadWrapper) (msg : SchedulerMessage) :
    (w.flushing = true → (w.handleMessage msg).1.flushing = true) ∧
      ∀ queued ∈ w.msgq, queued ∈ (w.handleMessage msg).1.msgq := by
  cases msg with
  | action asked =>
      cases asked with
      | done => exact ⟨fun _ => rfl, fun _ member => List.mem_append_left _ member⟩
      | _ => exact ⟨fun kept => kept, fun _ member => member⟩
  | _ => exact ⟨fun kept => kept, fun _ member => member⟩

/-- Outside a flush an iteration leaves the worker as it is. -/
theorem handleWorkNotification_of_not_flushing (opts : SchedulerTritonOptions) {w : ThreadWrapper}
    (idle : w.flushing = false) (s : ExecutorIterationStatus) :
    (handleWorkNotification opts w s).1 = w := by
  rw [handleWorkNotification_fst, if_neg (by simp [idle])]

/-- An iteration changes what the worker knows about a flush, and nothing else that
others see. -/
theorem handleWorkNotification_keeps (opts : SchedulerTritonOptions) (w : ThreadWrapper)
    (s : ExecutorIterationStatus) :
    (handleWorkNotification opts w s).1.readyToStart = w.readyToStart ∧
      (handleWorkNotification opts w s).1.threadStopped = w.threadStopped ∧
      (handleWorkNotification opts w s).1.blockStops = w.blockStops := by
  rw [handleWorkNotification_fst]
  split
  · split <;> exact ⟨rfl, rfl, rfl⟩
  · exact ⟨rfl, rfl, rfl⟩

/-- **The steps of the worker.** -/
theorem step_iff_moved {opts : SchedulerTritonOptions} {σ σ' : State} {act : Act} :
    Step opts σ act σ' ↔ Moved opts σ act σ' := by
  constructor
  · intro step
    cases act with
    | push msg => cases step; exact .push msg
    | openGate => cases step; exact .openGate
    | requestStop => cases step; exact .requestStop
    | step s =>
        have steps : threadBody opts σ s = some σ' := step
        unfold threadBody at steps
        cases stands : σ.pc with
        | startGate =>
            simp only [stands] at steps
            split at steps <;> cases steps
            exact .start s stands (by assumption)
        | outer =>
            simp only [stands] at steps
            split at steps <;> cases steps
            · exact .leave s stands (by assumption)
            · exact .enter s stands (Bool.eq_false_iff.mpr (by assumption))
        | drain =>
            simp only [stands] at steps
            split at steps <;> cases steps
            · rename_i onward
              rw [Bool.and_eq_true, Bool.not_eq_true'] at onward
              exact .ask s stands onward.1 onward.2
            · rename_i ends
              rw [Bool.and_eq_true, Bool.not_eq_true', not_and_or, Bool.not_eq_true,
                Bool.not_eq_false] at ends
              exact .drained s stands ends
        | pop =>
            simp only [stands] at steps
            split at steps
            · rename_i none
              split at steps <;> cases steps
              exact .empty s stands none (Bool.eq_false_iff.mpr (by assumption))
            · rename_i msg rest queue
              cases steps
              exact .pop s stands msg rest queue
        | handle msg =>
            simp only [stands] at steps
            cases steps
            rw [handleMessage_work]
            exact .handle s msg stands
        | work =>
            simp only [stands] at steps
            split at steps <;> cases steps
            · exact .iterate s stands (by assumption)
            · exact .idle s stands (Bool.eq_false_iff.mpr (by assumption))
        | exited =>
            simp only [stands] at steps
            cases steps
  · intro moved
    cases moved with
    | push msg | openGate | requestStop => rfl
    | start s stands ready => simp only [Step, next, threadBody, stands, ready, ↓reduceIte]
    | leave s stands stopped => simp only [Step, next, threadBody, stands, stopped, ↓reduceIte]
    | enter s stands running =>
        simp only [Step, next, threadBody, stands, running, Bool.false_eq_true, ↓reduceIte]
    | ask s stands valid running =>
        simp only [Step, next, threadBody, stands, valid, running, Bool.not_false, Bool.and_self,
          ↓reduceIte]
    | drained s stands ends =>
        have stays : (σ.valid && !σ.wrapper.threadStopped) = false := by
          rcases ends with invalid | stopped
          · rw [invalid, Bool.false_and]
          · rw [stopped, Bool.not_true, Bool.and_false]
        simp only [Step, next, threadBody, stands, stays, Bool.false_eq_true, ↓reduceIte]
    | empty s stands none nonblocking =>
        simp only [Step, next, threadBody, stands, none, nonblocking, Bool.false_eq_true,
          ↓reduceIte]
    | pop s stands msg rest queue => simp only [Step, next, threadBody, stands, queue]
    | handle s msg stands => simp only [Step, next, threadBody, stands, handleMessage_work]
    | iterate s stands due => simp only [Step, next, threadBody, stands, due, ↓reduceIte]
    | idle s stands none =>
        simp only [Step, next, threadBody, stands, none, Bool.false_eq_true, ↓reduceIte]

/-- The worker keeps its records. -/
theorem Step.log_suffix {opts : SchedulerTritonOptions} {σ σ' : State} {act : Act}
    (step : Step opts σ act σ') : σ.log <:+ σ'.log := by
  cases step_iff_moved.mp step with
  | handle | iterate => exact List.suffix_cons _ _
  | _ => exact List.suffix_rfl

/-- An iteration is made by the thread itself, at the end of a pass. -/
theorem Step.of_iterated {opts : SchedulerTritonOptions} {σ σ' : State} {act : Act}
    {s : ExecutorIterationStatus} {pushed : List MonitorMessage} (step : Step opts σ act σ')
    (log : σ'.log = .iterated s pushed :: σ.log) :
    act = .step s ∧ σ.pc = .work ∧ σ.doSomeWork = true ∧ σ' = { σ with
      wrapper := (handleWorkNotification opts σ.wrapper s).1
      pc := .outer
      blockingQueue := σ.blockingQueue || !(handleWorkNotification opts σ.wrapper s).2.2
      log := .iterated s (handleWorkNotification opts σ.wrapper s).2.1 :: σ.log } := by
  cases step_iff_moved.mp step with
  | iterate s stands due => cases log; exact ⟨rfl, stands, due, rfl⟩
  | handle => cases (List.cons.inj log).1
  | _ => exact (List.cons_ne_self _ _ log.symm).elim

/-- The log of a run only grows. -/
theorem log_suffix_of_run {opts : SchedulerTritonOptions} {σ σ' : State}
    {taken : List (Transition.Taken State Act)}
    (run : Transition.Run (Step opts) σ taken σ') : σ.log <:+ σ'.log :=
  run.invariant_of_step (fun τ => σ.log <:+ τ.log) List.suffix_rfl
    fun _ _ _ step kept => kept.trans step.log_suffix

/-! ## Iterations that are due -/

/-- A message that asks for work has been handled since the latest iteration. -/
def workDue : List Record → Bool
  | [] => false
  | .iterated .. :: _ => false
  | .handled msg _ :: rest => msg.asksWork || workDue rest

/-- Whether the thread is between the start of a drain and the end of the
iteration after it. -/
def Pc.inPass : Pc → Bool
  | .drain | .pop | .handle _ | .work => true
  | .startGate | .outer | .exited => false

/-- The worker knows whether an iteration is due. -/
def KnowsWork (σ : State) : Prop :=
  workDue σ.log = (σ.pc.inPass && σ.doSomeWork)

/-- Every step keeps the worker aware of the work that is due. -/
theorem KnowsWork.step {opts : SchedulerTritonOptions} {σ σ' : State} {act : Act}
    (knows : KnowsWork σ) (step : Step opts σ act σ') : KnowsWork σ' := by
  unfold KnowsWork at *
  cases step_iff_moved.mp step with
  | push | openGate | requestStop => exact knows
  | start s stands | leave s stands | enter s stands | ask s stands | drained s stands
  | empty s stands | pop s stands =>
      rw [stands] at knows
      simpa [Pc.inPass] using knows
  | handle s msg stands =>
      rw [stands] at knows
      change (msg.asksWork || workDue σ.log) = (σ.doSomeWork || msg.asksWork)
      rw [knows, Bool.or_comm]
      rfl
  | iterate s stands due => rfl
  | idle s stands none =>
      rw [stands, none] at knows
      exact knows

/-- Along every run the worker knows whether an iteration is due. -/
theorem knowsWork_of_run {opts : SchedulerTritonOptions} {id : Nat}
    {taken : List (Transition.Taken State Act)} {σ : State}
    (run : Transition.Run (Step opts) (State.initial id) taken σ) : KnowsWork σ :=
  run.invariant_of_step KnowsWork rfl fun _ _ _ step knows => knows.step step

end ThreadWrapper

end TorchDsp
