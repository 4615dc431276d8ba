import Mathlib.Algebra.GroupWithZero.Nat
import TorchDsp.Wrapper.Steps

/-! # The iterations that messages pay for

A worker runs an iteration only for a message that asks for one, or to go on with a
flush, whose iterations are counted. Every message is therefore worth a number of
iterations, and without new messages the worker runs no more than what those it has
are worth (`TorchDsp.ThreadWrapper.Step.budget`).
-/

namespace TorchDsp

/-- The iterations that a message can lead to. DONE asks for one, begins a flush with
a message to the worker itself, and the flush goes on until the flush count. -/
def SchedulerMessage.worth (opts : SchedulerTritonOptions) (msg : SchedulerMessage) : Nat :=
  if msg = .action .done then opts.flushCount + 2 else if msg.asksWork then 1 else 0

namespace ThreadWrapper

/-- The iterations for which a flush still wakes the worker. -/
def flushBudget (opts : SchedulerTritonOptions) (w : ThreadWrapper) : Nat :=
  if w.flushing = true ∧ opts.flush = true then opts.flushCount - w.flushCnt else 0

/-- What the queue and a flush are worth. -/
def budget (opts : SchedulerTritonOptions) (w : ThreadWrapper) : Nat :=
  (w.msgq.map (SchedulerMessage.worth opts)).sum + w.flushBudget opts

/-- What the message in hand is worth. -/
def Pc.budget (opts : SchedulerTritonOptions) : Pc → Nat
  | .handle msg => msg.worth opts
  | _ => 0

/-- The thread is about to run an iteration. -/
def State.aboutToIterate (σ : State) : Bool :=
  σ.pc = .work && σ.doSomeWork

/-- The iterations that a worker can run without new messages. -/
def State.budget (opts : SchedulerTritonOptions) (σ : State) : Nat :=
  σ.wrapper.budget opts + σ.pc.budget opts + if σ.pc.inPass && σ.doSomeWork then 1 else 0

private theorem budget_pushMessage (opts : SchedulerTritonOptions) (w : ThreadWrapper)
    (msg : SchedulerMessage) :
    (w.pushMessage msg).budget opts = w.budget opts + msg.worth opts := by
  have flush : (w.pushMessage msg).flushBudget opts = w.flushBudget opts := rfl
  unfold budget
  rw [flush, pushMessage, List.map_append, List.sum_append, List.map_singleton, List.sum_singleton]
  omega

/-- Handling a message, with the iteration it asks for, costs what it is worth. -/
theorem budget_handleMessage (opts : SchedulerTritonOptions) (w : ThreadWrapper)
    (msg : SchedulerMessage) :
    (w.handleMessage msg).1.budget opts + (if msg.asksWork then 1 else 0) ≤
      w.budget opts + msg.worth opts := by
  by_cases done : msg = .action .done
  · subst done
    have started : (w.handleMessage (.action .done)).1 =
        { w with flushing := true, flushCnt := 0 }.pushMessage (.action .notifyAll) := rfl
    have flush : flushBudget opts { w with flushing := true, flushCnt := 0 } ≤
        opts.flushCount := by
      unfold flushBudget
      split <;> omega
    have own : (SchedulerMessage.action .notifyAll).worth opts = 1 := rfl
    have asked : (SchedulerMessage.action .done).worth opts = opts.flushCount + 2 := rfl
    have asks : (SchedulerMessage.action .done).asksWork = true := rfl
    rw [started, budget_pushMessage, own, asked, if_pos asks]
    unfold budget
    simp only
    omega
  · have kept : (w.handleMessage msg).1.budget opts = w.budget opts := by
      cases msg with
      | action asked => cases asked <;> first | rfl | exact (done rfl).elim
      | _ => rfl
    apply Nat.le_of_eq
    rw [kept, SchedulerMessage.worth, if_neg done]

/-- An iteration of a flush pays for the next one. -/
theorem budget_handleWorkNotification (opts : SchedulerTritonOptions) (w : ThreadWrapper)
    (s : ExecutorIterationStatus) :
    (handleWorkNotification opts w s).1.budget opts ≤ w.budget opts := by
  rw [handleWorkNotification_fst]
  by_cases flushes : w.flushing = true ∧ opts.flush = true
  · rw [if_pos flushes]
    have before : w.flushBudget opts = opts.flushCount - w.flushCnt := if_pos flushes
    have after : flushBudget opts { w with flushCnt := w.flushCnt + 1 } =
        opts.flushCount - (w.flushCnt + 1) := if_pos flushes
    by_cases reached : opts.flushCount ≤ w.flushCnt + 1
    · rw [if_pos reached]
      unfold budget
      simp only [before, after]
      omega
    · have own : (SchedulerMessage.action .notifyAll).worth opts = 1 := rfl
      rw [if_neg reached, budget_pushMessage, own]
      unfold budget
      simp only [before, after]
      omega
  · apply Nat.le_of_eq
    rw [if_neg flushes]

/-- **What a step costs.** A step without a new message raises no budget, and an
iteration lowers it. -/
theorem Step.budget {opts : SchedulerTritonOptions} {σ σ' : State} {s : ExecutorIterationStatus}
    (step : Step opts σ (.step s) σ') :
    σ'.budget opts + (if σ.aboutToIterate then 1 else 0) ≤ σ.budget opts := by
  unfold State.budget State.aboutToIterate
  cases step_iff_moved.mp step with
  | start s stands | leave s stands | enter s stands | ask s stands | drained s stands
  | empty s stands | idle s stands =>
      simp only [stands, Pc.budget, Pc.inPass]
      simp
  | pop s stands msg rest queue =>
      have taken : σ.wrapper.budget opts =
          ThreadWrapper.budget opts { σ.wrapper with msgq := rest } + msg.worth opts := by
        unfold ThreadWrapper.budget
        rw [queue, List.map_cons, List.sum_cons]
        simp only [flushBudget]
        omega
      simp only [stands, taken, Pc.budget, Pc.inPass]
      simp
  | handle s msg stands =>
      have cost := budget_handleMessage opts σ.wrapper msg
      simp only [stands, Pc.budget, Pc.inPass]
      cases σ.doSomeWork <;> cases asks : msg.asksWork <;> simp [asks] at cost ⊢ <;> omega
  | iterate s stands due =>
      have cost := budget_handleWorkNotification opts σ.wrapper s
      simp only [stands, due, Pc.budget, Pc.inPass]
      simpa using cost

end ThreadWrapper

end TorchDsp
