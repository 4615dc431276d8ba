import TorchDsp.Wrapper.Exit

/-! # The controller of a worker

One thread starts, kills and stops a worker by calls of `start()`, `kill()` and
`stop()`, each of which takes several steps. `stop()` asks the worker to end,
waits for its thread and stops the blocks. While it works, the worker holds the
mutex of the start gate. Other threads push messages at any time.
-/

namespace TorchDsp

namespace ThreadWrapper

/-- A call that the controller makes. -/
inductive Call
  | start
  | kill
  | stop
  deriving DecidableEq, Repr

/-- Where the controller stands in its calls. -/
inductive ControlPc
  | idle
  /-- `start()` has started the blocks and is about to push NOTIFY_ALL. -/
  | startNotify
  /-- `start()`, before it locks the mutex of the gate. -/
  | startOpen
  /-- `kill()`, before it pushes EXIT. -/
  | kill
  /-- `stop()`, before it sets `d_thread_stopped`. -/
  | stopFlag
  /-- `stop()`, before its call of `kill()`. -/
  | stopKill
  /-- `stop()`, before it joins the thread. -/
  | join
  /-- `stop()`, before it stops the blocks. -/
  | stopBlocks
  deriving DecidableEq, Repr

def Call.entry : Call → ControlPc
  | .start => .startNotify
  | .kill => .kill
  | .stop => .stopFlag

/-- A worker and its controller. -/
structure System where
  worker : State
  /-- The calls still to be made. -/
  calls : List Call
  pc : ControlPc := .idle
  joinable : Bool := true
  deriving DecidableEq, Repr

namespace System

/-- Change what the worker shares with others. -/
def share (σ : System) (change : ThreadWrapper → ThreadWrapper) : System :=
  { σ with worker := { σ.worker with wrapper := change σ.worker.wrapper } }

/-- Whether the worker has left the mutex of its gate alone. -/
def gateFree (σ : System) : Bool :=
  σ.worker.pc = .startGate || σ.worker.pc = .exited

/-- One step of the controller. Without a result it is blocked, or has made all
its calls. -/
def control (σ : System) : Option System :=
  match σ.pc with
  | .idle =>
      match σ.calls with
      | [] => none
      | call :: rest => some { σ with pc := call.entry, calls := rest }
  | .startNotify =>
      some { σ.share (·.pushMessage (.action .notifyAll)) with pc := .startOpen }
  | .startOpen =>
      if σ.gateFree then some { σ.share ({ · with readyToStart := true }) with pc := .idle }
      else none
  | .kill => some { σ.share (·.pushMessage (.action .exit)) with pc := .idle }
  | .stopFlag => some { σ.share ({ · with threadStopped := true }) with pc := .stopKill }
  | .stopKill => some { σ.share (·.pushMessage (.action .exit)) with pc := .join }
  | .join =>
      if !σ.joinable then some { σ with pc := .stopBlocks }
      else if σ.worker.pc = .exited then some { σ with pc := .stopBlocks, joinable := false }
      else none
  | .stopBlocks => some { σ.share stopBlocks with pc := .idle }

/-- Who makes the next step. -/
inductive Turn
  | worker (s : ExecutorIterationStatus)
  | push (msg : SchedulerMessage)
  | control
  deriving DecidableEq, Repr

def next (opts : SchedulerTritonOptions) (σ : System) : Turn → Option System
  | .worker s => (threadBody opts σ.worker s).map fun worker => { σ with worker }
  | .push msg => some (σ.share (·.pushMessage msg))
  | .control => σ.control

def Step (opts : SchedulerTritonOptions) (σ : System) (turn : Turn) (σ' : System) : Prop :=
  next opts σ turn = some σ'

def initial (id : Nat) (calls : List Call) : System where
  worker := State.initial id
  calls := calls

/-- What can happen between a worker and its controller. -/
inductive Moved (opts : SchedulerTritonOptions) (σ : System) : Turn → System → Prop
  | worker (s : ExecutorIterationStatus) {worker : State}
      (step : ThreadWrapper.Step opts σ.worker (.step s) worker) :
      Moved opts σ (.worker s) { σ with worker }
  | push (msg : SchedulerMessage) : Moved opts σ (.push msg) (σ.share (·.pushMessage msg))
  | call (call : Call) (rest : List Call) (stands : σ.pc = .idle) (calls : σ.calls = call :: rest) :
      Moved opts σ .control { σ with pc := call.entry, calls := rest }
  | startNotify (stands : σ.pc = .startNotify) :
      Moved opts σ .control
        { σ.share (·.pushMessage (.action .notifyAll)) with pc := .startOpen }
  | startOpen (stands : σ.pc = .startOpen) (free : σ.gateFree = true) :
      Moved opts σ .control { σ.share ({ · with readyToStart := true }) with pc := .idle }
  | kill (stands : σ.pc = .kill) :
      Moved opts σ .control { σ.share (·.pushMessage (.action .exit)) with pc := .idle }
  | stopFlag (stands : σ.pc = .stopFlag) :
      Moved opts σ .control { σ.share ({ · with threadStopped := true }) with pc := .stopKill }
  | stopKill (stands : σ.pc = .stopKill) :
      Moved opts σ .control { σ.share (·.pushMessage (.action .exit)) with pc := .join }
  | join (stands : σ.pc = .join) (joinable : Bool)
      (ended : σ.joinable = true → σ.worker.pc = .exited) :
      Moved opts σ .control { σ with pc := .stopBlocks, joinable }
  | stopBlocks (stands : σ.pc = .stopBlocks) :
      Moved opts σ .control { σ.share ThreadWrapper.stopBlocks with pc := .idle }

/-- Every turn is one of the things that can happen. -/
theorem Step.moved {opts : SchedulerTritonOptions} {σ σ' : System} {turn : Turn}
    (step : Step opts σ turn σ') : Moved opts σ turn σ' := by
  cases turn with
  | worker s =>
      obtain ⟨worker, steps, rfl⟩ := Option.map_eq_some_iff.mp step
      exact .worker s steps
  | push msg => cases step; exact .push msg
  | control =>
      have steps : σ.control = some σ' := step
      unfold control at steps
      cases stands : σ.pc with
      | idle =>
          simp only [stands] at steps
          split at steps
          · cases steps
          · cases steps
            exact .call _ _ stands (by assumption)
      | startNotify => simp only [stands] at steps; cases steps; exact .startNotify stands
      | startOpen =>
          simp only [stands] at steps
          split at steps <;> cases steps
          exact .startOpen stands (by assumption)
      | kill => simp only [stands] at steps; cases steps; exact .kill stands
      | stopFlag => simp only [stands] at steps; cases steps; exact .stopFlag stands
      | stopKill => simp only [stands] at steps; cases steps; exact .stopKill stands
      | join =>
          simp only [stands] at steps
          split at steps
          · rename_i unjoinable
            cases steps
            rw [Bool.not_eq_true'] at unjoinable
            exact .join stands σ.joinable fun absurd => by rw [unjoinable] at absurd; cases absurd
          · split at steps <;> cases steps
            exact .join stands false fun _ => by assumption
      | stopBlocks => simp only [stands] at steps; cases steps; exact .stopBlocks stands

end System

end ThreadWrapper

end TorchDsp
