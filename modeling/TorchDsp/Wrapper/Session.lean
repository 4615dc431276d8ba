import TorchDsp.Wrapper.Steps

/-! # The life of a block

A wrapper calls `start()`, `stop()` and `done()` on its blocks: on the thread of a
controller that calls `start()`, `stop()`, `wait()`, `run()` and `kill()` of the
wrapper, and on the worker, which also runs the iterations. Whatever the order of the
calls and however the two threads interleave, each block lives one life
(`TorchDsp.ThreadWrapper.Session.lives_in_order`): it is started before it works,
stopped before it is done, and works at most once more after it has been stopped.
-/

namespace TorchDsp

namespace ThreadWrapper

/-- A member function of a block that a wrapper calls. -/
inductive BlockCall
  | start
  | stop
  | done
  deriving DecidableEq, Repr

/-- What happens to a block. -/
inductive BlockEvent
  | called (call : BlockCall)
  /-- An iteration over the blocks of the wrapper. -/
  | iterated
  deriving DecidableEq, Repr

/-! ## The stages of a life -/

/-- The stages of a life, as a wrapper is meant to lead its blocks through them. -/
inductive Lifecycle
  | fresh
  | running
  /-- Stopped, with one iteration left at most. -/
  | closing
  | closed
  deriving DecidableEq, Repr

namespace Lifecycle

/-- The stage after an event, if the event may happen. -/
def next : Lifecycle → BlockEvent → Option Lifecycle
  | .fresh, .called .start => some .running
  | .fresh, _ => none
  | .running, .called .start => some .running
  | .running, .iterated => some .running
  | .running, .called .stop => some .closing
  | .running, .called .done => none
  | .closing, .called .start => some .closing
  | .closing, _ => some .closed
  | .closed, .iterated => none
  | .closed, .called _ => some .closed

/-- The stage after some events, the latest of which comes first. -/
def after (stage : Lifecycle) : List BlockEvent → Option Lifecycle
  | [] => some stage
  | event :: earlier => (after stage earlier).bind (next · event)

/-- The events of a life, latest first, are in order. -/
structure InOrder (events : List BlockEvent) : Prop where
  /-- No iteration comes before the first `start()`. -/
  iterates : ∀ later earlier, events = later ++ .iterated :: earlier →
    .called .start ∈ earlier
  /-- A block is stopped after it has been started, and works at most once more. -/
  stops : ∀ later earlier, events = later ++ .called .stop :: earlier →
    .called .start ∈ earlier ∧ later.count .iterated ≤ 1
  /-- A block is done after it has been stopped, and never works again. -/
  ends : ∀ later earlier, events = later ++ .called .done :: earlier →
    .called .start ∈ earlier ∧ .called .stop ∈ earlier ∧ .iterated ∉ later

private theorem after_append (stage : Lifecycle) (later earlier : List BlockEvent) :
    after stage (later ++ earlier) = (after stage earlier).bind (after · later) := by
  induction later with
  | nil => exact (Option.bind_fun_some _).symm
  | cons event later ih =>
      rw [List.cons_append, after, ih, Option.bind_assoc]
      rfl

/-- A life in stages, cut in two. -/
theorem after_of_append {stage : Lifecycle} {later earlier : List BlockEvent}
    (reached : after .fresh (later ++ earlier) = some stage) :
    ∃ middle, after .fresh earlier = some middle ∧ after middle later = some stage :=
  Option.bind_eq_some_iff.mp ((after_append _ _ _).symm.trans reached)

/-- Only `start()` leads out of the first stage. -/
theorem started_of_after {stage : Lifecycle} {events : List BlockEvent}
    (reached : after .fresh events = some stage) (left : stage ≠ .fresh) :
    .called .start ∈ events := by
  induction events generalizing stage with
  | nil => exact (left (Option.some.inj reached).symm).elim
  | cons event earlier ih =>
      obtain ⟨before, above, step⟩ := Option.bind_eq_some_iff.mp reached
      by_cases first : before = .fresh
      · subst first
        cases event with
        | iterated => cases step
        | called call =>
            cases call with
            | start => exact List.mem_cons_self
            | stop | done => cases step
      · exact List.mem_cons_of_mem _ (ih above first)

/-- Only `stop()` leads to the last two stages. -/
theorem stopped_of_after {stage : Lifecycle} {events : List BlockEvent}
    (reached : after .fresh events = some stage) (late : stage = .closing ∨ stage = .closed) :
    .called .stop ∈ events := by
  induction events generalizing stage with
  | nil =>
      cases reached
      rcases late with absurd | absurd <;> cases absurd
  | cons event earlier ih =>
      obtain ⟨before, above, step⟩ := Option.bind_eq_some_iff.mp reached
      cases before with
      | closing => exact List.mem_cons_of_mem _ (ih above (Or.inl rfl))
      | closed => exact List.mem_cons_of_mem _ (ih above (Or.inr rfl))
      | fresh | running =>
          rcases late with rfl | rfl
          · cases event with
            | iterated => cases step
            | called call =>
                cases call with
                | stop => exact List.mem_cons_self
                | start | done => cases step
          · cases event with
            | iterated => cases step
            | called call => cases call <;> cases step

/-- The last stage has no iteration, and no end. -/
theorem of_after_closed {stage : Lifecycle} {events : List BlockEvent}
    (reached : after .closed events = some stage) : stage = .closed ∧ .iterated ∉ events := by
  induction events generalizing stage with
  | nil => exact ⟨(Option.some.inj reached).symm, List.not_mem_nil⟩
  | cons event earlier ih =>
      obtain ⟨before, above, step⟩ := Option.bind_eq_some_iff.mp reached
      obtain ⟨rfl, none⟩ := ih above
      cases event with
      | iterated => cases step
      | called call =>
          refine ⟨(Option.some.inj step).symm, fun member => ?_⟩
          exact none ((List.mem_cons.mp member).resolve_left BlockEvent.noConfusion)

/-- A block that closes works at most once. -/
theorem of_after_closing {stage : Lifecycle} {events : List BlockEvent}
    (reached : after .closing events = some stage) :
    stage = .closing ∧ events.count .iterated = 0 ∨
      stage = .closed ∧ events.count .iterated ≤ 1 := by
  induction events generalizing stage with
  | nil => exact Or.inl ⟨(Option.some.inj reached).symm, rfl⟩
  | cons event earlier ih =>
      obtain ⟨before, above, step⟩ := Option.bind_eq_some_iff.mp reached
      cases event with
      | called call =>
          rw [List.count_cons_of_ne BlockEvent.noConfusion]
          rcases ih above with ⟨rfl, none⟩ | ⟨rfl, few⟩
          · cases call with
            | start => exact Or.inl ⟨(Option.some.inj step).symm, none⟩
            | stop | done => exact Or.inr ⟨(Option.some.inj step).symm, by omega⟩
          · exact Or.inr ⟨(Option.some.inj step).symm, few⟩
      | iterated =>
          rw [List.count_cons_self]
          rcases ih above with ⟨rfl, none⟩ | ⟨rfl, few⟩
          · exact Or.inr ⟨(Option.some.inj step).symm, by omega⟩
          · cases step

/-- **A life that goes through the stages is in order.** -/
theorem inOrder_of_after {stage : Lifecycle} {events : List BlockEvent}
    (reached : after .fresh events = some stage) : InOrder events := by
  refine ⟨fun later earlier split => ?_, fun later earlier split => ?_,
    fun later earlier split => ?_⟩
  all_goals
    subst split
    obtain ⟨middle, here, onward⟩ := after_of_append reached
    obtain ⟨before, above, step⟩ := Option.bind_eq_some_iff.mp here
  · refine started_of_after above fun first => ?_
    subst first
    cases step
  · refine ⟨started_of_after above fun first => ?_, ?_⟩
    · subst first
      cases step
    · cases before with
      | fresh => cases step
      | running =>
          cases step
          rcases of_after_closing onward with ⟨_, none⟩ | ⟨_, few⟩
          · omega
          · exact few
      | closing | closed =>
          cases step
          rw [List.count_eq_zero_of_not_mem (of_after_closed onward).2]
          exact Nat.zero_le 1
  · have late : before = .closing ∨ before = .closed := by
      cases before with
      | fresh | running => cases step
      | closing => exact Or.inl rfl
      | closed => exact Or.inr rfl
    refine ⟨started_of_after above ?_, stopped_of_after above late, ?_⟩
    · rintro rfl
      cases step
    · rcases late with rfl | rfl <;> cases step <;> exact (of_after_closed onward).2

end Lifecycle

/-! ## A wrapper and its controller -/

namespace Session

/-- A call of a wrapper. -/
inductive Call
  | start
  | stop
  | wait
  | run
  | kill
  deriving DecidableEq, Repr

/-- Where the controller stands in its calls. -/
inductive Pc
  | idle
  /-- A loop that calls a member function on each block, and the block it is at. -/
  | each (call : BlockCall) (block : Nat)
  /-- `start()`, before it pushes NOTIFY_ALL. -/
  | startNotify
  /-- `start()`, before it locks the mutex of the gate. -/
  | startOpen
  /-- `stop()`, before it sets `d_thread_stopped`. -/
  | stopFlag
  /-- `stop()`, before its call of `kill()`. -/
  | stopKill
  /-- `kill()`, before it pushes EXIT. -/
  | kill
  /-- Before the thread is joined, and what is then called on the blocks. -/
  | join (call : BlockCall)
  deriving DecidableEq, Repr

end Session

/-- A wrapper with its blocks, its worker and its controller. -/
structure Session where
  /-- The number of blocks. -/
  blocks : Nat
  worker : State
  /-- The calls still to be made. -/
  calls : List Session.Call
  pc : Session.Pc := .idle
  joinable : Bool := true
  /-- What has happened to which block, latest first. -/
  history : List (Nat × BlockEvent) := []
  deriving DecidableEq, Repr

namespace Session

/-- What the worker does to the blocks in its next step. -/
def workerEvent (σ : State) : Option BlockEvent :=
  match σ.pc with
  | .handle (.action .exit) => some (.called .stop)
  | .work => if σ.doSomeWork then some .iterated else none
  | _ => none

/-- An event of every block, the first block's event first. -/
def eachBlock (blocks : Nat) (event : BlockEvent) : List (Nat × BlockEvent) :=
  (List.range blocks).map (·, event)

/-- Change what the worker shares with others. -/
def share (σ : Session) (change : ThreadWrapper → ThreadWrapper) : Session :=
  { σ with worker := { σ.worker with wrapper := change σ.worker.wrapper } }

/-- Whether the worker has left the mutex of its gate alone. -/
def gateFree (σ : Session) : Bool :=
  σ.worker.pc = .startGate || σ.worker.pc = .exited

/-- How a call begins. `run()` calls `start()` and `wait()`. -/
def enter (σ : Session) (rest : List Call) : Call → Session
  | .start => { σ with pc := .each .start 0, calls := rest }
  | .stop => { σ with pc := .stopFlag, calls := rest }
  | .wait => { σ with pc := .join .done, calls := rest }
  | .run => { σ with calls := .start :: .wait :: rest }
  | .kill => { σ with pc := .kill, calls := rest }

/-- Where the controller goes after a loop over the blocks. -/
def afterEach : BlockCall → Pc
  | .start => .startNotify
  | .stop => .idle
  | .done => .idle

/-- One step of the controller. Without a result it is blocked, or has made all
its calls. -/
def control (σ : Session) : Option Session :=
  match σ.pc with
  | .idle =>
      match σ.calls with
      | [] => none
      | call :: rest => some (σ.enter rest call)
  | .each call block =>
      if block < σ.blocks then
        some { σ with
          pc := .each call (block + 1), history := (block, .called call) :: σ.history }
      else some { σ with pc := afterEach call }
  | .startNotify =>
      some { σ.share (·.pushMessage (.action .notifyAll)) with pc := .startOpen }
  | .startOpen =>
      if σ.gateFree then some { σ.share ({ · with readyToStart := true }) with pc := .idle }
      else none
  | .stopFlag => some { σ.share ({ · with threadStopped := true }) with pc := .stopKill }
  | .stopKill => some { σ.share (·.pushMessage (.action .exit)) with pc := .join .stop }
  | .kill => some { σ.share (·.pushMessage (.action .exit)) with pc := .idle }
  | .join call =>
      if !σ.joinable then some { σ with pc := .each call 0 }
      else if σ.worker.pc = .exited then
        some { σ with pc := .each call 0, joinable := false }
      else none

/-- Who makes the next step. -/
inductive Turn
  | worker (s : ExecutorIterationStatus)
  | push (msg : SchedulerMessage)
  | control
  deriving DecidableEq, Repr

def next (opts : SchedulerTritonOptions) (σ : Session) : Turn → Option Session
  | .worker s => (threadBody opts σ.worker s).map fun worker =>
      match workerEvent σ.worker with
      | none => { σ with worker }
      | some event =>
          { σ with worker, history := (eachBlock σ.blocks event).reverse ++ σ.history }
  | .push msg => some (σ.share (·.pushMessage msg))
  | .control => σ.control

def Step (opts : SchedulerTritonOptions) (σ : Session) (turn : Turn) (σ' : Session) : Prop :=
  next opts σ turn = some σ'

def initial (id blocks : Nat) (calls : List Call) : Session where
  blocks := blocks
  worker := State.initial id
  calls := calls

/-- What has happened to a block, latest first. -/
def eventsOf (block : Nat) (history : List (Nat × BlockEvent)) : List BlockEvent :=
  history.filterMap fun entry => if entry.1 = block then some entry.2 else none

/-- What can happen between a wrapper and its controller. -/
inductive Moved (opts : SchedulerTritonOptions) (σ : Session) : Turn → Session → Prop
  | worker (s : ExecutorIterationStatus) {worker : State}
      (step : ThreadWrapper.Step opts σ.worker (.step s) worker)
      (quiet : workerEvent σ.worker = none) : Moved opts σ (.worker s) { σ with worker }
  | workerEvent (s : ExecutorIterationStatus) {worker : State} (event : BlockEvent)
      (step : ThreadWrapper.Step opts σ.worker (.step s) worker)
      (happens : workerEvent σ.worker = some event) :
      Moved opts σ (.worker s)
        { σ with worker, history := (eachBlock σ.blocks event).reverse ++ σ.history }
  | push (msg : SchedulerMessage) : Moved opts σ (.push msg) (σ.share (·.pushMessage msg))
  | call (call : Call) (rest : List Call) (stands : σ.pc = .idle)
      (calls : σ.calls = call :: rest) : Moved opts σ .control (σ.enter rest call)
  | each (call : BlockCall) (block : Nat) (stands : σ.pc = .each call block)
      (left : block < σ.blocks) :
      Moved opts σ .control { σ with
        pc := .each call (block + 1), history := (block, .called call) :: σ.history }
  | afterEach (call : BlockCall) (block : Nat) (stands : σ.pc = .each call block)
      (none : σ.blocks ≤ block) : Moved opts σ .control { σ with pc := afterEach call }
  | startNotify (stands : σ.pc = .startNotify) :
      Moved opts σ .control
        { σ.share (·.pushMessage (.action .notifyAll)) with pc := .startOpen }
  | startOpen (stands : σ.pc = .startOpen) (free : σ.gateFree = true) :
      Moved opts σ .control { σ.share ({ · with readyToStart := true }) with pc := .idle }
  | stopFlag (stands : σ.pc = .stopFlag) :
      Moved opts σ .control { σ.share ({ · with threadStopped := true }) with pc := .stopKill }
  | stopKill (stands : σ.pc = .stopKill) :
      Moved opts σ .control { σ.share (·.pushMessage (.action .exit)) with pc := .join .stop }
  | kill (stands : σ.pc = .kill) :
      Moved opts σ .control { σ.share (·.pushMessage (.action .exit)) with pc := .idle }
  | join (call : BlockCall) (stands : σ.pc = .join call) (joinable : Bool)
      (ended : σ.joinable = true → σ.worker.pc = .exited) :
      Moved opts σ .control { σ with pc := .each call 0, joinable }

private theorem control_moved {opts : SchedulerTritonOptions} {σ σ' : Session}
    (step : σ.control = some σ') : Moved opts σ .control σ' := by
  unfold control at step
  cases stands : σ.pc with
  | idle =>
      simp only [stands] at step
      split at step <;> cases step
      exact .call _ _ stands (by assumption)
  | each call block =>
      simp only [stands] at step
      split at step <;> cases step
      · exact .each call block stands (by assumption)
      · exact .afterEach call block stands (Nat.le_of_not_lt (by assumption))
  | startNotify => simp only [stands] at step; cases step; exact .startNotify stands
  | startOpen =>
      simp only [stands] at step
      split at step <;> cases step
      exact .startOpen stands (by assumption)
  | stopFlag => simp only [stands] at step; cases step; exact .stopFlag stands
  | stopKill => simp only [stands] at step; cases step; exact .stopKill stands
  | kill => simp only [stands] at step; cases step; exact .kill stands
  | join call =>
      simp only [stands] at step
      split at step
      · rename_i unjoinable
        cases step
        rw [Bool.not_eq_true'] at unjoinable
        exact .join call stands σ.joinable fun absurd => by rw [unjoinable] at absurd; cases absurd
      · split at step <;> cases step
        exact .join call stands false fun _ => by assumption

/-- Every turn is one of the things that can happen. -/
theorem Step.moved {opts : SchedulerTritonOptions} {σ σ' : Session} {turn : Turn}
    (step : Step opts σ turn σ') : Moved opts σ turn σ' := by
  cases turn with
  | worker s =>
      obtain ⟨worker, steps, same⟩ := Option.map_eq_some_iff.mp step
      subst same
      cases happens : Session.workerEvent σ.worker with
      | none => exact .worker s steps happens
      | some event => exact .workerEvent s event steps happens
  | push msg => cases step; exact .push msg
  | control => exact control_moved step

/-! ## The lives of the blocks -/

/-- The controller has called `start()` on a block and has not opened the gate. -/
def Pc.starting (block : Nat) : Pc → Prop
  | .each .start next => block < next
  | .startNotify | .startOpen => True
  | _ => False

/-- The controller has set `d_thread_stopped` and has not called `stop()` on a block. -/
def Pc.stopping (block : Nat) : Pc → Prop
  | .each .stop next => next ≤ block
  | .stopKill | .join .stop => True
  | _ => False

/-- The controller has joined the thread. -/
def Pc.joined : Pc → Prop
  | .each .stop _ | .each .done _ => True
  | _ => False

/-- Where the worker and the controller can stand at each stage of a block. -/
inductive Stands (block : Nat) (worker : State) (pc : Pc) : Lifecycle → Prop
  | fresh (closed : worker.wrapper.readyToStart = false) (unstarted : ¬ pc.starting block)
      (asked : worker.wrapper.threadStopped = true → pc.stopping block) :
      Stands block worker pc .fresh
  | running (asked : worker.wrapper.threadStopped = true → pc.stopping block) :
      Stands block worker pc .running
  | closing (stopped : worker.wrapper.threadStopped = true)
      (leaves : worker.pc ∈ [.drain, .work, .outer, .exited]) : Stands block worker pc .closing
  | closed (stopped : worker.wrapper.threadStopped = true)
      (leaves : worker.pc ∈ [.outer, .exited]) : Stands block worker pc .closed

/-- A block's life so far is a possible one, and agrees with where the worker and
the controller stand. -/
structure Lives (block : Nat) (σ : Session) : Prop where
  member : block < σ.blocks
  gated : σ.worker.pc = .startGate ∨ σ.worker.wrapper.readyToStart = true
  ended : σ.worker.pc = .exited → σ.worker.wrapper.threadStopped = true
  joined : σ.joinable = false ∨ σ.pc.joined → σ.worker.pc = .exited
  stage : ∃ stage, Lifecycle.after .fresh (eventsOf block σ.history) = some stage ∧
    Stands block σ.worker σ.pc stage

private theorem eventsOf_cons (block other : Nat) (event : BlockEvent)
    (history : List (Nat × BlockEvent)) :
    eventsOf block ((other, event) :: history) =
      if other = block then event :: eventsOf block history else eventsOf block history := by
  rw [eventsOf, List.filterMap_cons]
  by_cases same : other = block
  · simp only [same, ↓reduceIte]
    rfl
  · simp only [same, ↓reduceIte]
    rfl

private theorem eventsOf_append (block : Nat) (later earlier : List (Nat × BlockEvent)) :
    eventsOf block (later ++ earlier) = eventsOf block later ++ eventsOf block earlier :=
  List.filterMap_append

/-- An event of every block happens once to each. -/
theorem eventsOf_eachBlock (block blocks : Nat) (event : BlockEvent) :
    eventsOf block (eachBlock blocks event).reverse = if block < blocks then [event] else [] := by
  induction blocks with
  | zero => rfl
  | succ blocks ih =>
      rw [eachBlock, List.range_succ, List.map_append, List.reverse_append]
      change eventsOf block ((blocks, event) :: (eachBlock blocks event).reverse) = _
      rw [eventsOf_cons, ih]
      by_cases last : blocks = block
      · rw [if_pos last, if_neg (by omega), if_pos (by omega)]
      · rw [if_neg last]
        exact if_congr (by omega) rfl rfl

variable {opts : SchedulerTritonOptions} {block : Nat} {stage : Lifecycle}

/-- The worker stays behind its gate until it is open, and ends only when stopped. -/
theorem worker_gated {worker worker' : State} {s : ExecutorIterationStatus}
    (step : ThreadWrapper.Step opts worker (.step s) worker') :
    worker'.wrapper.readyToStart = worker.wrapper.readyToStart ∧
      (worker.pc = .startGate → worker.wrapper.readyToStart = true) ∧
      worker.pc ≠ .exited ∧
      (worker'.pc = .exited → worker'.wrapper.threadStopped = true) := by
  cases step_iff_moved.mp step with
  | start _ stands ready =>
      exact ⟨rfl, fun _ => ready, by simp [stands], fun absurd => by cases absurd⟩
  | leave _ stands stopped => exact ⟨rfl, by simp [stands], by simp [stands], fun _ => stopped⟩
  | handle _ msg stands =>
      refine ⟨?_, by simp [stands], by simp [stands], fun absurd => by cases absurd⟩
      cases msg with
      | action asked => cases asked <;> rfl
      | _ => rfl
  | iterate _ stands due =>
      exact ⟨(handleWorkNotification_keeps opts _ s).1, by simp [stands], by simp [stands],
        fun absurd => by cases absurd⟩
  | enter _ stands | ask _ stands | drained _ stands | empty _ stands | pop _ stands
  | idle _ stands =>
      exact ⟨rfl, by simp [stands], by simp [stands], fun absurd => by cases absurd⟩

/-- What the worker does to a block is in order, and without it the block stays at its
stage. -/
theorem Stands.worker_step {worker worker' : State} {pc : Pc} {s : ExecutorIterationStatus}
    (stands : Stands block worker pc stage)
    (behind : worker.wrapper.readyToStart = false → worker.pc = .startGate)
    (step : ThreadWrapper.Step opts worker (.step s) worker') :
    match workerEvent worker with
    | none => Stands block worker' pc stage
    | some event => ∃ stage', stage.next event = some stage' ∧ Stands block worker' pc stage' := by
  cases stands with
  | fresh closed =>
      have ready := (worker_gated step).2.1 (behind closed)
      rw [closed] at ready
      cases ready
  | running asked =>
      cases step_iff_moved.mp step with
      | handle _ msg here =>
          simp only [workerEvent, here]
          cases msg with
          | action action =>
              cases action with
              | exit => exact ⟨.closing, rfl, .closing rfl List.mem_cons_self⟩
              | _ => exact .running asked
          | _ => exact .running asked
      | iterate _ here due =>
          simp only [workerEvent, here, due, ↓reduceIte]
          refine ⟨.running, rfl, .running fun stopped => asked ?_⟩
          exact (handleWorkNotification_keeps opts _ s).2.1.symm.trans stopped
      | idle _ here none =>
          simp only [workerEvent, here, none, Bool.false_eq_true, ↓reduceIte]
          exact .running asked
      | start _ here | leave _ here | enter _ here | ask _ here | drained _ here | empty _ here
      | pop _ here =>
          simp only [workerEvent, here]
          exact .running asked
  | closing stopped leaves =>
      cases step_iff_moved.mp step with
      | drained _ here =>
          simp only [workerEvent, here]
          exact .closing stopped (by simp)
      | iterate _ here due =>
          simp only [workerEvent, here, due, ↓reduceIte]
          refine ⟨.closed, rfl, .closed ?_ List.mem_cons_self⟩
          exact (handleWorkNotification_keeps opts _ s).2.1.trans stopped
      | idle _ here none =>
          simp only [workerEvent, here, none, Bool.false_eq_true, ↓reduceIte]
          exact .closing stopped (by simp)
      | leave _ here =>
          simp only [workerEvent, here]
          exact .closing stopped (by simp)
      | enter _ here alive | ask _ here valid alive =>
          rw [stopped] at alive
          cases alive
      | start _ here | empty _ here | pop _ here | handle _ msg here => simp [here] at leaves
  | closed stopped leaves =>
      cases step_iff_moved.mp step with
      | leave _ here =>
          simp only [workerEvent, here]
          exact .closed stopped (by simp)
      | enter _ here alive =>
          rw [stopped] at alive
          cases alive
      | start _ here | ask _ here | drained _ here | empty _ here | pop _ here
      | handle _ msg here | iterate _ here | idle _ here => simp [here] at leaves

/-- A stage that the controller's move does not concern. -/
theorem Stands.control {worker worker' : State} {pc pc' : Pc}
    (stands : Stands block worker pc stage) (same : worker'.pc = worker.pc)
    (stopped : worker.wrapper.threadStopped = true → worker'.wrapper.threadStopped = true)
    (asks : worker'.wrapper.threadStopped = true →
      (worker.wrapper.threadStopped = true → pc.stopping block) → pc'.stopping block)
    (opened : worker'.wrapper.readyToStart = true →
      worker.wrapper.readyToStart = true ∨ pc.starting block)
    (starts : pc'.starting block → pc.starting block) : Stands block worker' pc' stage := by
  cases stands with
  | fresh closed unstarted asked =>
      refine .fresh ?_ (fun late => unstarted (starts late)) fun now => asks now asked
      refine Bool.eq_false_iff.mpr fun ready => ?_
      rcases opened ready with absurd | absurd
      · rw [closed] at absurd
        cases absurd
      · exact unstarted absurd
  | running asked => exact .running fun now => asks now asked
  | closing was leaves => exact .closing (stopped was) (same ▸ leaves)
  | closed was leaves => exact .closed (stopped was) (same ▸ leaves)

/-- A call on the block itself. -/
theorem Stands.called {worker : State} {call : BlockCall}
    (stands : Stands block worker (.each call block) stage)
    (behind : worker.wrapper.readyToStart = false → worker.pc = .startGate)
    (ended : worker.pc = .exited → worker.wrapper.threadStopped = true)
    (joined : (Pc.each call block).joined → worker.pc = .exited) :
    ∃ stage', stage.next (.called call) = some stage' ∧
      Stands block worker (.each call (block + 1)) stage' := by
  cases call with
  | start =>
      cases stands with
      | fresh closed unstarted asked => exact ⟨.running, rfl, .running asked⟩
      | running asked => exact ⟨.running, rfl, .running asked⟩
      | closing stopped leaves => exact ⟨.closing, rfl, .closing stopped leaves⟩
      | closed stopped leaves => exact ⟨.closed, rfl, .closed stopped leaves⟩
  | stop =>
      have gone := joined trivial
      have leaves : worker.pc ∈ [.outer, .exited] := by simp [gone]
      cases stands with
      | fresh closed unstarted asked => cases gone.symm.trans (behind closed)
      | running asked => exact ⟨.closing, rfl, .closing (ended gone) (by simp [gone])⟩
      | closing | closed => exact ⟨.closed, rfl, .closed (ended gone) leaves⟩
  | done =>
      have gone := joined trivial
      have leaves : worker.pc ∈ [.outer, .exited] := by simp [gone]
      cases stands with
      | fresh closed unstarted asked => cases gone.symm.trans (behind closed)
      | running asked => exact (asked (ended gone)).elim
      | closing | closed => exact ⟨.closed, rfl, .closed (ended gone) leaves⟩

/-- While the gate is closed, the thread stands before it. -/
theorem Lives.behind {σ : Session} (lives : Lives block σ)
    (closed : σ.worker.wrapper.readyToStart = false) : σ.worker.pc = .startGate :=
  lives.gated.resolve_right (Bool.eq_false_iff.mp closed)

/-- What the controller and others do beside the block. -/
theorem Lives.control {σ σ' : Session} (lives : Lives block σ) (blocks : σ'.blocks = σ.blocks)
    (same : σ'.worker.pc = σ.worker.pc)
    (events : eventsOf block σ'.history = eventsOf block σ.history)
    (stopped : σ.worker.wrapper.threadStopped = true → σ'.worker.wrapper.threadStopped = true)
    (ready : σ.worker.wrapper.readyToStart = true → σ'.worker.wrapper.readyToStart = true)
    (joined : σ'.joinable = false ∨ σ'.pc.joined → σ.worker.pc = .exited)
    (asks : σ'.worker.wrapper.threadStopped = true →
      (σ.worker.wrapper.threadStopped = true → σ.pc.stopping block) → σ'.pc.stopping block)
    (opened : σ'.worker.wrapper.readyToStart = true →
      σ.worker.wrapper.readyToStart = true ∨ σ.pc.starting block)
    (starts : σ'.pc.starting block → σ.pc.starting block) : Lives block σ' := by
  obtain ⟨stage, reached, stands⟩ := lives.stage
  exact {
    member := blocks ▸ lives.member
    gated := lives.gated.imp same.trans ready
    ended := fun gone => stopped (lives.ended (same.symm.trans gone))
    joined := fun after => same.trans (joined after)
    stage := ⟨stage, events ▸ reached, stands.control same stopped asks opened starts⟩ }

/-- The controller goes on without touching the worker or the history. -/
theorem Lives.goes {σ : Session} (lives : Lives block σ) (calls : List Call) (pc : Pc)
    (joinable : Bool) (joined : joinable = false ∨ pc.joined → σ.worker.pc = .exited)
    (stops : σ.pc.stopping block → pc.stopping block)
    (starts : pc.starting block → σ.pc.starting block) :
    Lives block { σ with calls, pc, joinable } :=
  lives.control rfl rfl rfl (fun kept => kept) (fun kept => kept) joined
    (fun now asked => stops (asked now)) Or.inl starts

/-- A message for the worker does not concern the blocks. -/
theorem Lives.push {σ : Session} (lives : Lives block σ) (msg : SchedulerMessage) :
    Lives block (σ.share (·.pushMessage msg)) :=
  lives.control rfl rfl rfl (fun kept => kept) (fun kept => kept) lives.joined
    (fun now asked => asked now) Or.inl (fun kept => kept)

/-- What the worker does leaves each block's life a possible one. -/
theorem Lives.worker_step {σ : Session} {worker : State} {s : ExecutorIterationStatus}
    (lives : Lives block σ) (step : ThreadWrapper.Step opts σ.worker (.step s) worker)
    (history : List (Nat × BlockEvent)) (stage : Lifecycle)
    (reached : Lifecycle.after .fresh (eventsOf block history) = some stage)
    (stands : Stands block worker σ.pc stage) : Lives block { σ with worker, history } := by
  obtain ⟨kept, opens, alive, ended⟩ := worker_gated step
  exact {
    member := lives.member
    gated := Or.inr (kept.trans (lives.gated.elim opens fun ready => ready))
    ended := ended
    joined := fun after => (alive (lives.joined after)).elim
    stage := ⟨stage, reached, stands⟩ }

/-- The controller takes up its next call. -/
theorem Lives.enter {σ : Session} (lives : Lives block σ) (rest : List Call) (call : Call)
    (here : σ.pc = .idle) : Lives block (σ.enter rest call) := by
  have joined (pc : Pc) (after : σ.joinable = false ∨ pc.joined) (none : ¬ pc.joined) :
      σ.worker.pc = .exited := lives.joined (Or.inl (after.resolve_right none))
  have stops (pc : Pc) (absurd : σ.pc.stopping block) : pc.stopping block := by
    rw [here] at absurd
    exact absurd.elim
  cases call with
  | start =>
      exact lives.goes _ _ _ (joined _ · not_false) (stops _) fun late =>
        (Nat.not_lt_zero _ late).elim
  | stop | wait | kill => exact lives.goes _ _ _ (joined _ · not_false) (stops _) False.elim
  | run => exact lives.goes _ _ _ lives.joined (fun kept => kept) (fun kept => kept)

/-- The loop of a call reaches a block, this one or another one. -/
theorem Lives.each {σ : Session} (lives : Lives block σ) {call : BlockCall} {other : Nat}
    (here : σ.pc = .each call other) :
    Lives block { σ with
      pc := .each call (other + 1), history := (other, .called call) :: σ.history } := by
  have joins (after : σ.joinable = false ∨ (Pc.each call (other + 1)).joined) :
      σ.worker.pc = .exited :=
    lives.joined (after.imp_right fun joined => by rw [here]; cases call <;> exact joined)
  by_cases own : other = block
  · subst own
    obtain ⟨stage, reached, stands⟩ := lives.stage
    rw [here] at stands
    obtain ⟨stage', follows, now⟩ := stands.called lives.behind lives.ended fun joined =>
      lives.joined (Or.inr (by rw [here]; exact joined))
    refine ⟨lives.member, lives.gated, lives.ended, joins, stage', ?_, now⟩
    rw [eventsOf_cons, if_pos rfl]
    exact Option.bind_eq_some_iff.mpr ⟨stage, reached, follows⟩
  · refine lives.control rfl rfl ?_ (fun kept => kept) (fun kept => kept) joins ?_ Or.inl ?_
    · rw [eventsOf_cons, if_neg own]
    · intro now asked
      have before := asked now
      rw [here] at before
      cases call with
      | stop => exact Nat.lt_of_le_of_ne before own
      | start | done => exact before
    · intro late
      rw [here]
      cases call with
      | start => exact Nat.lt_of_le_of_ne (Nat.le_of_lt_succ late) (Ne.symm own)
      | stop | done => exact late

/-- **One step of a life.** -/
theorem Lives.step {σ σ' : Session} {turn : Turn} (lives : Lives block σ)
    (step : Step opts σ turn σ') : Lives block σ' := by
  obtain ⟨stage, reached, stands⟩ := lives.stage
  cases step.moved with
  | worker s moved quiet =>
      have onward := stands.worker_step lives.behind moved
      rw [quiet] at onward
      exact lives.worker_step moved σ.history stage reached onward
  | workerEvent s event moved happens =>
      have onward := stands.worker_step lives.behind moved
      rw [happens] at onward
      obtain ⟨stage', follows, now⟩ := onward
      refine lives.worker_step moved _ stage' ?_ now
      rw [eventsOf_append, eventsOf_eachBlock, if_pos lives.member]
      exact Option.bind_eq_some_iff.mpr ⟨stage, reached, follows⟩
  | push msg => exact lives.push msg
  | call call rest here => exact lives.enter rest call here
  | each call other here _ => exact lives.each here
  | afterEach call past here none =>
      have member := lives.member
      refine lives.goes σ.calls _ σ.joinable (fun after => lives.joined (after.imp_right ?_)) ?_ ?_
      · cases call <;> exact False.elim
      · rw [here]
        cases call with
        | stop => exact fun behind => absurd behind (by simp [Pc.stopping]; omega)
        | start | done => exact False.elim
      · rw [here]
        cases call with
        | start => exact fun _ => Nat.lt_of_lt_of_le member none
        | stop | done => exact False.elim
  | startNotify here =>
      refine (lives.push (.action .notifyAll)).goes σ.calls .startOpen σ.joinable
        (fun after => lives.joined (Or.inl (after.resolve_right not_false))) ?_ ?_
      · intro absurd
        change σ.pc.stopping block at absurd
        rw [here] at absurd
        exact absurd.elim
      · intro _
        change σ.pc.starting block
        rw [here]
        trivial
  | startOpen here free =>
      refine lives.control rfl rfl rfl (fun kept => kept) (fun _ => rfl)
        (fun after => lives.joined (Or.inl (after.resolve_right not_false))) ?_ ?_ False.elim
      · intro now asked
        have before := asked now
        rw [here] at before
        exact before
      · exact fun _ => Or.inr (by rw [here]; trivial)
  | stopFlag here =>
      exact lives.control rfl rfl rfl (fun _ => rfl) (fun kept => kept)
        (fun after => lives.joined (Or.inl (after.resolve_right not_false)))
        (fun _ _ => trivial) Or.inl False.elim
  | stopKill here =>
      exact (lives.push (.action .exit)).goes σ.calls (.join .stop) σ.joinable
        (fun after => lives.joined (Or.inl (after.resolve_right not_false)))
        (fun _ => trivial) False.elim
  | kill here =>
      refine (lives.push (.action .exit)).goes σ.calls .idle σ.joinable
        (fun after => lives.joined (Or.inl (after.resolve_right not_false))) ?_ False.elim
      intro absurd
      change σ.pc.stopping block at absurd
      rw [here] at absurd
      exact absurd.elim
  | join call here joinable ended =>
      refine lives.goes σ.calls _ joinable ?_ ?_ ?_
      · intro _
        cases could : σ.joinable with
        | true => exact ended could
        | false => exact lives.joined (Or.inl could)
      · rw [here]
        cases call with
        | stop => exact fun _ => Nat.zero_le _
        | start | done => exact False.elim
      · cases call with
        | start => exact fun late => (Nat.not_lt_zero _ late).elim
        | stop | done => exact False.elim

private theorem lives_initial (id : Nat) {blocks : Nat} (calls : List Call)
    (member : block < blocks) : Lives block (initial id blocks calls) where
  member := member
  gated := Or.inl rfl
  ended := by intro absurd; cases absurd
  joined := by rintro (absurd | absurd) <;> cases absurd
  stage := ⟨.fresh, rfl, .fresh rfl not_false fun absurd => by cases absurd⟩

/-- **Each block lives one life.** Whatever calls the controller makes, in whatever
order, and whatever the worker does meanwhile, what happens to a block is in order. -/
theorem lives_in_order {id blocks : Nat} {calls : List Call}
    {taken : List (Transition.Taken Session Turn)} {σ : Session}
    (run : Transition.Run (Step opts) (initial id blocks calls) taken σ) (block : Nat)
    (member : block < blocks) : Lifecycle.InOrder (eventsOf block σ.history) := by
  have lives : Lives block σ :=
    run.invariant_of_step (Lives block) (lives_initial id calls member)
      fun _ _ _ step lives => lives.step step
  obtain ⟨stage, reached, _⟩ := lives.stage
  exact Lifecycle.inOrder_of_after reached

/-- `run()` with an EXIT message that the worker pops after its first notification: the
blocks work once after they are stopped. -/
theorem run_lives_in_order : ∃ taken σ,
    Transition.Run (Step {}) (initial 0 2 [.run]) taken σ ∧
      eventsOf 1 σ.history = [.called .done, .iterated, .called .stop, .called .start] ∧
      Lifecycle.InOrder (eventsOf 1 σ.history) := by
  have follows : Transition.follow (next {}) (initial 0 2 [.run])
      (List.replicate 7 .control ++ [.push (.action .exit)] ++
        List.replicate 11 (.worker .ready) ++ List.replicate 4 .control) = some _ := rfl
  obtain ⟨taken, run, _⟩ := Transition.Run.of_follow follows
  exact ⟨taken, _, run, rfl, lives_in_order run 1 (by decide)⟩

end Session

end ThreadWrapper

end TorchDsp
