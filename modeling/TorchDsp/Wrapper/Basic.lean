import TorchDsp.Foundation.Run
import TorchDsp.Runtime.Buffer

/-! # The worker thread

The worker waits at a start gate, then alternates between draining its message
queue and running one iteration. Other threads push messages into the queue, open
the gate and ask the worker to stop at any time. The status of each iteration is
given from outside: any sequence of statuses is possible.
-/

namespace TorchDsp

/-- The options of the scheduler that the worker reads. -/
structure SchedulerTritonOptions where
  flush : Bool := true
  flushCount : Nat := 8
  deriving DecidableEq, Repr

/-- What the worker reports to the runtime monitor. -/
inductive MonitorMessage
  /-- The sender is given by `handle_work_notification` only. -/
  | done (id : Option Nat)
  | flushed (id : Nat)
  deriving DecidableEq, Repr

/-- A message to the worker. -/
inductive SchedulerMessage
  | action (action : SchedulerAction)
  | msgportMessage
  | parameterQuery
  | parameterChange
  | other
  deriving DecidableEq, Repr

/-- The members of `thread_wrapper` that its thread shares or keeps between
iterations. -/
structure ThreadWrapper where
  id : Nat := 0
  /-- The next message to pop comes first. -/
  msgq : List SchedulerMessage := []
  threadStopped : Bool := false
  flushing : Bool := false
  flushCnt : Nat := 0
  readyToStart : Bool := false
  /-- How often `stop()` has been called on each block. -/
  blockStops : Nat := 0
  deriving DecidableEq, Repr

namespace ThreadWrapper

def pushMessage (w : ThreadWrapper) (msg : SchedulerMessage) : ThreadWrapper :=
  { w with msgq := w.msgq ++ [msg] }

def startFlushing (w : ThreadWrapper) : ThreadWrapper :=
  { w with flushing := true, flushCnt := 0 }.pushMessage (.action .notifyAll)

def stopBlocks (w : ThreadWrapper) : ThreadWrapper :=
  { w with blockStops := w.blockStops + 1 }

/-- `handle_work_notification` after an iteration that returned `s`: what it
pushes to the runtime monitor, and its result. The sleep before the worker
notifies itself is left out. -/
def handleWorkNotification (opts : SchedulerTritonOptions) (w : ThreadWrapper)
    (s : ExecutorIterationStatus) : ThreadWrapper × List MonitorMessage × Bool :=
  let done : List MonitorMessage := if s = .done then [.done (some w.id)] else []
  if w.flushing then
    if !opts.flush then (w, done ++ [.flushed w.id], false)
    else
      let allBlkd := true
      let notifySelf := s = .ready || s = .readyNoOutput || s = .blkdOut
      if allBlkd then
        let w := { w with flushCnt := w.flushCnt + 1 }
        if w.flushCnt ≥ opts.flushCount then (w, done ++ [.flushed w.id], false)
        else (w.pushMessage (.action .notifyAll), done, notifySelf)
      else ({ w with flushCnt := 0 }, done, notifySelf)
  else (w, done, false)

/-- The switch of the thread body over the popped message: what it pushes to the
runtime monitor, and whether work needs to be done. -/
def handleMessage (w : ThreadWrapper) :
    SchedulerMessage → ThreadWrapper × List MonitorMessage × Bool
  | .action .signalDone => (w, [.done none], false)
  | .action .done => (w.startFlushing, [], true)
  | .action .exit => ({ w.stopBlocks with threadStopped := true }, [], false)
  | .action .notifyOutput => (w, [], true)
  | .action .notifyInput => (w, [], true)
  | .action .notifyAll => (w, [], true)
  | .action .other => (w, [], false)
  | .msgportMessage => (w, [], false)
  | .parameterQuery => (w, [], false)
  | .parameterChange => (w, [], false)
  | .other => (w, [], false)

/-! ## The thread body -/

/-- Where the thread stands in `thread_body`. -/
inductive Pc
  /-- The wait on `_start_cv`. -/
  | startGate
  /-- The test of the outer loop. -/
  | outer
  /-- The test of the loop that drains the queue. -/
  | drain
  /-- `pop_message` or `pop_message_nonblocking`. -/
  | pop
  | handle (msg : SchedulerMessage)
  /-- The iteration, if one is due. -/
  | work
  | exited
  deriving DecidableEq, Repr

/-- What the worker has done, as far as others can see it. -/
inductive Record
  | handled (msg : SchedulerMessage) (pushed : List MonitorMessage)
  | iterated (s : ExecutorIterationStatus) (pushed : List MonitorMessage)
  deriving DecidableEq, Repr

/-- The worker with the variables of its thread, and its records, latest first. -/
structure State where
  wrapper : ThreadWrapper := {}
  pc : Pc := .startGate
  blockingQueue : Bool := true
  valid : Bool := true
  doSomeWork : Bool := false
  log : List Record := []
  deriving DecidableEq, Repr

/-- One step of the thread body; `s` is the status of the iteration, if it runs
one. Without a result the thread is blocked or has ended. -/
def threadBody (opts : SchedulerTritonOptions) (σ : State) (s : ExecutorIterationStatus) :
    Option State :=
  match σ.pc with
  | .startGate => if σ.wrapper.readyToStart then some { σ with pc := .outer } else none
  | .outer =>
      if σ.wrapper.threadStopped then some { σ with pc := .exited }
      else some { σ with pc := .drain, valid := true, doSomeWork := false }
  | .drain =>
      if σ.valid && !σ.wrapper.threadStopped then some { σ with pc := .pop }
      else some { σ with pc := .work }
  | .pop =>
      match σ.wrapper.msgq with
      | [] =>
          if σ.blockingQueue then none
          else some { σ with pc := .drain, valid := false }
      | msg :: rest =>
          some { σ with
            wrapper := { σ.wrapper with msgq := rest }
            pc := .handle msg, valid := true, blockingQueue := false }
  | .handle msg =>
      let (wrapper, pushed, work) := σ.wrapper.handleMessage msg
      some { σ with
        wrapper, pc := .drain, doSomeWork := σ.doSomeWork || work
        log := .handled msg pushed :: σ.log }
  | .work =>
      if σ.doSomeWork then
        let (wrapper, pushed, ready) := handleWorkNotification opts σ.wrapper s
        some { σ with
          wrapper, pc := .outer, blockingQueue := σ.blockingQueue || !ready
          log := .iterated s pushed :: σ.log }
      else some { σ with pc := .outer, blockingQueue := true }
  | .exited => none

/-- What happens next: a step of the thread, or something another thread does. -/
inductive Act
  | step (s : ExecutorIterationStatus)
  | push (msg : SchedulerMessage)
  /-- `start()` opens the gate. -/
  | openGate
  /-- `stop()` sets `d_thread_stopped`. -/
  | requestStop
  deriving DecidableEq, Repr

/-- The worker among the other threads. -/
def next (opts : SchedulerTritonOptions) (σ : State) : Act → Option State
  | .step s => threadBody opts σ s
  | .push msg => some { σ with wrapper := σ.wrapper.pushMessage msg }
  | .openGate => some { σ with wrapper := { σ.wrapper with readyToStart := true } }
  | .requestStop => some { σ with wrapper := { σ.wrapper with threadStopped := true } }

/-- The transitions of a worker. -/
def Step (opts : SchedulerTritonOptions) (σ : State) (act : Act) (σ' : State) : Prop :=
  next opts σ act = some σ'

/-- The worker as it is constructed. -/
def State.initial (id : Nat) : State := { wrapper := { id } }

/-! ## What the parts do -/

/-- What a notification pushes to the runtime monitor. -/
theorem handleWorkNotification_pushed (opts : SchedulerTritonOptions) (w : ThreadWrapper)
    (s : ExecutorIterationStatus) :
    (handleWorkNotification opts w s).2.1 =
      (if s = .done then [.done (some w.id)] else []) ++
        if w.flushing = true ∧ (opts.flush = true → opts.flushCount ≤ w.flushCnt + 1) then
          [.flushed w.id] else [] := by
  unfold handleWorkNotification
  cases flushing : w.flushing with
  | false => simp only [Bool.false_eq_true, false_and, ↓reduceIte, List.append_nil]
  | true =>
      cases enabled : opts.flush with
      | false => simp
      | true =>
          by_cases reached : opts.flushCount ≤ w.flushCnt + 1
          · simp only [reached, ↓reduceIte, Bool.not_true, Bool.false_eq_true, implies_true,
              and_self]
          · simp [reached]

/-- A notification reports DONE exactly when its iteration did. -/
theorem mem_done_handleWorkNotification {opts : SchedulerTritonOptions} {w : ThreadWrapper}
    {s : ExecutorIterationStatus} :
    .done (some w.id) ∈ (handleWorkNotification opts w s).2.1 ↔ s = .done := by
  rw [handleWorkNotification_pushed, List.mem_append]
  constructor
  · rintro (first | second)
    · split at first
      · assumption
      · exact (List.not_mem_nil first).elim
    · split at second
      · cases List.mem_singleton.mp second
      · exact (List.not_mem_nil second).elim
  · intro finished
    rw [if_pos finished]
    exact Or.inl List.mem_cons_self

/-- FLUSHED is pushed while flushing, and by the option only after as many iterations. -/
theorem mem_flushed_handleWorkNotification {opts : SchedulerTritonOptions} {w : ThreadWrapper}
    {s : ExecutorIterationStatus} {id : Nat} :
    .flushed id ∈ (handleWorkNotification opts w s).2.1 ↔
      id = w.id ∧ w.flushing = true ∧ (opts.flush = true → opts.flushCount ≤ w.flushCnt + 1) := by
  rw [handleWorkNotification_pushed, List.mem_append]
  constructor
  · rintro (first | second)
    · split at first
      · cases List.mem_singleton.mp first
      · exact (List.not_mem_nil first).elim
    · split at second
      · cases List.mem_singleton.mp second
        exact ⟨rfl, by assumption⟩
      · exact (List.not_mem_nil second).elim
  · rintro ⟨rfl, due⟩
    rw [if_pos due]
    exact Or.inr List.mem_cons_self

/-- What a notification changes: while flushing, it counts the iteration and,
short of the flush count, wakes the worker again. -/
theorem handleWorkNotification_fst (opts : SchedulerTritonOptions) (w : ThreadWrapper)
    (s : ExecutorIterationStatus) :
    (handleWorkNotification opts w s).1 =
      if w.flushing = true ∧ opts.flush = true then
        if opts.flushCount ≤ w.flushCnt + 1 then { w with flushCnt := w.flushCnt + 1 }
        else { w with flushCnt := w.flushCnt + 1 }.pushMessage (.action .notifyAll)
      else w := by
  unfold handleWorkNotification
  cases flushing : w.flushing with
  | false => simp only [Bool.false_eq_true, false_and, ↓reduceIte]
  | true =>
      cases opts.flush with
      | false => simp only [Bool.not_false, ↓reduceIte, Bool.false_eq_true, and_false]
      | true =>
          by_cases reached : opts.flushCount ≤ w.flushCnt + 1
          · simp only [reached, ↓reduceIte, Bool.not_true, Bool.false_eq_true, and_self]
          · simp only [reached, ↓reduceIte, Bool.not_true, Bool.false_eq_true, and_self]

/-- An iteration does not end a flush. -/
theorem handleWorkNotification_flushing (opts : SchedulerTritonOptions) (w : ThreadWrapper)
    (s : ExecutorIterationStatus) :
    (handleWorkNotification opts w s).1.flushing = w.flushing := by
  rw [handleWorkNotification_fst]
  split
  · split <;> rfl
  · rfl

/-- While it flushes, the worker counts every iteration. -/
theorem handleWorkNotification_flushCnt {opts : SchedulerTritonOptions} {w : ThreadWrapper}
    (enabled : opts.flush = true) (flushing : w.flushing = true) (s : ExecutorIterationStatus) :
    (handleWorkNotification opts w s).1.flushCnt = w.flushCnt + 1 := by
  rw [handleWorkNotification_fst, if_pos ⟨flushing, enabled⟩]
  split <;> rfl

end ThreadWrapper

end TorchDsp
