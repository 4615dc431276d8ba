import TorchDsp.Flowgraph.Basic
import TorchDsp.Wrapper.Wakeups

/-! # Wake-ups between schedulers

A scheduler that publishes or releases items notifies the schedulers at that end
of its group. The notification is on its way, in a queue, or has made an iteration
due, until that iteration begins (`TorchDsp.Flowgraph.Wakeful.step`). A scheduler
that waits with nothing on its way has therefore begun an iteration after every
change that concerns it (`TorchDsp.Flowgraph.waiting_has_seen`).
-/

namespace TorchDsp

open GraphExecutor

namespace ThreadWrapper

/-- Only the thread itself gets to an iteration or leaves it. -/
theorem Step.aboutToIterate_of_others {opts : SchedulerTritonOptions} {σ σ' : State} {act : Act}
    (step : Step opts σ act σ') (others : ∀ s, act ≠ .step s) :
    σ'.aboutToIterate = σ.aboutToIterate := by
  cases act with
  | step s => exact (others s rfl).elim
  | push msg | openGate | requestStop => cases step; rfl

/-- A notification keeps what is queued. -/
theorem mem_msgq_handleWorkNotification {opts : SchedulerTritonOptions} {w : ThreadWrapper}
    {msg : SchedulerMessage} (queued : msg ∈ w.msgq) (s : ExecutorIterationStatus) :
    msg ∈ (handleWorkNotification opts w s).1.msgq := by
  rw [handleWorkNotification_fst]
  split
  · split
    · exact queued
    · exact List.mem_append_left _ queued
  · exact queued

/-- A message that asks for work stays queued until it is in hand. -/
theorem State.Woken.step {opts : SchedulerTritonOptions} {σ σ' : State} {act : Act}
    (woken : σ.Woken) (step : Step opts σ act σ') : σ'.Woken ∨ σ'.Due ∧ σ.pc = .pop := by
  obtain ⟨queued, member, asks⟩ := woken
  have kept (stays : queued ∈ σ'.wrapper.msgq) : σ'.Woken ∨ σ'.Due ∧ σ.pc = .pop :=
    Or.inl ⟨queued, stays, asks⟩
  cases step_iff_moved.mp step with
  | push msg => exact kept (List.mem_append_left _ member)
  | pop s stands msg rest queue =>
      rw [queue] at member
      rcases List.mem_cons.mp member with rfl | later
      · exact Or.inr ⟨Or.inr ⟨queued, rfl, asks⟩, stands⟩
      · exact kept later
  | handle s msg stands => exact kept ((handleMessage_keeps σ.wrapper msg).2 queued member)
  | iterate s stands due => exact kept (mem_msgq_handleWorkNotification member s)
  | openGate | requestStop | start | leave | enter | ask | drained | empty | idle =>
      exact kept member

end ThreadWrapper

namespace Flowgraph

variable {n : Nat} {opts : Fin n → SchedulerTritonOptions} {wiring : Wiring n}
  {f f' : Flowgraph n} {act : Act n} {u d : Fin n}

/-- Replacing a scheduler leaves the others. -/
theorem schedulers_setScheduler (f : Flowgraph n) (u v : Fin n) (s : Scheduler n) :
    (f.setScheduler u s).schedulers v = if v = u then s else f.schedulers v :=
  Function.update_apply ..

/-- The scheduler that is put in its place is found there. -/
@[simp] theorem setScheduler_self (f : Flowgraph n) (u : Fin n) (s : Scheduler n) :
    (f.setScheduler u s).schedulers u = s :=
  Function.update_self ..

/-- Another scheduler is found as it was. -/
theorem setScheduler_of_ne (f : Flowgraph n) {u v : Fin n} (s : Scheduler n) (other : v ≠ u) :
    (f.setScheduler u s).schedulers v = f.schedulers v :=
  Function.update_of_ne other ..

/-- A phase of a scheduler changes its blocks, its point and the messages it sends. -/
theorem advance_self (f : Flowgraph n) (u : Fin n) (g : Group) (point : Point) :
    (f.advance wiring u g point).schedulers u = { f.schedulers u with
      blocks := g.blocks, point
      sending := (point.events.drop (f.schedulers u).point.events.length).flatMap
        (wiring.messages u) } :=
  Function.update_self ..

/-- A phase leaves the other schedulers alone. -/
theorem advance_of_ne (f : Flowgraph n) {u v : Fin n} (g : Group) (point : Point)
    (other : v ≠ u) : (f.advance wiring u g point).schedulers v = f.schedulers v :=
  Function.update_of_ne other ..

/-! ## The schedulers along a run -/

/-- No scheduler has run yet. -/
structure Starting (f : Flowgraph n) : Prop where
  thread : ∀ u, ∃ id, (f.schedulers u).thread = .initial id
  point : ∀ u, (f.schedulers u).point = .start
  sending : ∀ u, (f.schedulers u).sending = []

/-- No thread blocks with something to do, and phases and their messages belong to
iterations. -/
structure Orderly (f : Flowgraph n) : Prop where
  patient : ∀ u, ThreadWrapper.Patient (f.schedulers u).thread
  busy : ∀ u, (f.schedulers u).thread.aboutToIterate = false →
    (f.schedulers u).point = .start ∧ (f.schedulers u).sending = []

/-- A flowgraph that starts is in order. -/
theorem Starting.orderly (starting : f.Starting) : f.Orderly := by
  refine ⟨fun u => ?_, fun u _ => ⟨starting.point u, starting.sending u⟩⟩
  obtain ⟨id, same⟩ := starting.thread u
  rw [same]
  have run : Transition.Run (ThreadWrapper.Step {}) (.initial id) [] (.initial id) := .nil _
  exact ThreadWrapper.patient_of_run run

/-- A flowgraph stays in order when the new scheduler is. -/
theorem Orderly.setScheduler (orderly : f.Orderly) {s : Scheduler n}
    (patient : ThreadWrapper.Patient s.thread)
    (busy : s.thread.aboutToIterate = false → s.point = .start ∧ s.sending = []) :
    (f.setScheduler u s).Orderly := by
  constructor
  · intro v
    rw [schedulers_setScheduler]
    split
    · exact patient
    · exact orderly.patient v
  · intro v
    rw [schedulers_setScheduler]
    split
    · exact busy
    · exact orderly.busy v

/-- A thread outside its iteration moves, or others act on it. -/
theorem Orderly.setThread (orderly : f.Orderly) {move : ThreadWrapper.Act}
    {thread : ThreadWrapper.State}
    (idle : ∀ status, move = .step status → (f.schedulers u).thread.aboutToIterate = false)
    (steps : ThreadWrapper.Step (opts u) (f.schedulers u).thread move thread) :
    (f.setThread u thread).Orderly := by
  refine orderly.setScheduler ((orderly.patient u).step steps) fun rests => orderly.busy u ?_
  by_cases own : ∃ status, move = .step status
  · obtain ⟨status, same⟩ := own
    exact idle status same
  · rw [← steps.aboutToIterate_of_others fun status same => own ⟨status, same⟩]
    exact rests

/-- The iteration of `u` goes on. -/
theorem Orderly.setInside (orderly : f.Orderly)
    (iterates : (f.schedulers u).thread.aboutToIterate = true) {s : Scheduler n}
    (same : s.thread = (f.schedulers u).thread) : (f.setScheduler u s).Orderly := by
  refine orderly.setScheduler (same ▸ orderly.patient u) fun rests => ?_
  rw [same, iterates] at rests
  cases rests

/-- Every step keeps a flowgraph in order. -/
theorem Orderly.step (orderly : f.Orderly) (moved : Moved opts wiring f act f') : f'.Orderly := by
  cases moved with
  | deliver u answers iterates v msg rest sends f' popped thread arrives =>
      have after : f'.Orderly := popped ▸ orderly.setInside iterates rfl
      exact after.setThread (fun _ absurd => ThreadWrapper.Act.noConfusion absurd) arrives
  | finish u answers iterates sent status events returned thread steps =>
      exact orderly.setScheduler ((orderly.patient u).step steps) fun _ => ⟨rfl, sent⟩
  | phase u answers iterates sent inside g point resumes =>
      have after := orderly.setInside iterates (s := { f.schedulers u with
        blocks := g.blocks, point
        sending := (point.events.drop (f.schedulers u).point.events.length).flatMap
          (wiring.messages u) }) rfl
      exact ⟨after.patient, after.busy⟩
  | thread u act move thread idle steps => exact orderly.setThread idle steps
  | outside act k buffer foreign grown limits reads => exact ⟨orderly.patient, orderly.busy⟩

/-! ## Notifications on their way -/

/-- A transition begins an iteration of `d`. -/
def Begins (d : Fin n) (t : Transition.Taken (Flowgraph n) (Act n)) : Prop :=
  (t.source.schedulers d).point = .start ∧ (t.target.schedulers d).point ≠ .start

/-- A message that asks `d` for work is on its way or in its queue, or has made an
iteration due that has not begun. -/
def Wakeful (f : Flowgraph n) (d : Fin n) : Prop :=
  (∃ u msg, (d, msg) ∈ (f.schedulers u).sending ∧ msg.asksWork = true) ∨
    (f.schedulers d).thread.Woken ∨
      (f.schedulers d).thread.Due ∧ (f.schedulers d).point = .start

/-- No move of a thread but the start of its iteration loses a wake-up. -/
theorem Wakeful.setThread (wakeful : f.Wakeful d) (orderly : f.Orderly) {move : ThreadWrapper.Act}
    {thread : ThreadWrapper.State}
    (idle : ∀ status, move = .step status → (f.schedulers u).thread.aboutToIterate = false)
    (steps : ThreadWrapper.Step (opts u) (f.schedulers u).thread move thread) :
    (f.setThread u thread).Wakeful d := by
  rcases wakeful with ⟨v, msg, sends, asks⟩ | wakeful
  · refine Or.inl ⟨v, msg, ?_, asks⟩
    unfold Flowgraph.setThread
    rw [schedulers_setScheduler]
    split
    · rename_i same
      rw [← same]
      exact sends
    · exact sends
  · right
    by_cases same : d = u
    · subst same
      rw [Flowgraph.setThread, setScheduler_self]
      rcases wakeful with woken | ⟨due, start⟩
      · refine (woken.step steps).imp_right fun ⟨due, stands⟩ => ⟨due, ?_⟩
        refine (orderly.busy d ?_).1
        rw [ThreadWrapper.State.aboutToIterate, stands]
        rfl
      · right
        refine ⟨(due.step steps).resolve_left fun ⟨s, pushed, log⟩ => ?_, start⟩
        obtain ⟨own, stands, works, _⟩ := steps.of_iterated log
        have rests := idle s own
        rw [ThreadWrapper.State.aboutToIterate, stands, works] at rests
        cases rests
    · rw [Flowgraph.setThread, setScheduler_of_ne f _ same]
      exact wakeful

/-- **A notification is not lost on its way.** -/
theorem Wakeful.step (wakeful : f.Wakeful d) (orderly : f.Orderly)
    (moved : Moved opts wiring f act f') : Begins d ⟨f, act, f'⟩ ∨ f'.Wakeful d := by
  cases moved with
  | deliver u answers iterates v msg rest sends f₁ popped thread arrives =>
      right
      have after : f₁.Orderly := popped ▸ orderly.setInside iterates rfl
      have idle (status : ExecutorIterationStatus)
          (absurd : ThreadWrapper.Act.push msg = .step status) :
          (f₁.schedulers v).thread.aboutToIterate = false := by cases absurd
      have others (w : Fin n) : (f₁.schedulers w).thread = (f.schedulers w).thread ∧
          (f₁.schedulers w).point = (f.schedulers w).point := by
        rw [popped, schedulers_setScheduler]
        split
        · rename_i same
          rw [same]
          exact ⟨rfl, rfl⟩
        · exact ⟨rfl, rfl⟩
      rcases wakeful with ⟨w, queued, sent, asks⟩ | wakeful
      · by_cases same : w = u
        · subst same
          rw [sends] at sent
          rcases List.mem_cons.mp sent with arrived | later
          · cases arrived
            refine Or.inr (Or.inl ⟨msg, ?_, asks⟩)
            rw [Flowgraph.setThread, setScheduler_self]
            cases arrives
            exact List.mem_append_right _ List.mem_cons_self
          · refine Wakeful.setThread (Or.inl ⟨w, queued, ?_, asks⟩) after idle arrives
            rw [popped, setScheduler_self]
            exact later
        · refine Wakeful.setThread (Or.inl ⟨w, queued, ?_, asks⟩) after idle arrives
          rw [popped, setScheduler_of_ne f _ same]
          exact sent
      · refine Wakeful.setThread (Or.inr ?_) after idle arrives
        rw [(others d).1, (others d).2]
        exact wakeful
  | finish u answers iterates sent status events returned thread steps =>
      right
      rcases wakeful with ⟨w, queued, sends, asks⟩ | wakeful
      · refine Or.inl ⟨w, queued, ?_, asks⟩
        by_cases same : w = u
        · subst same
          rw [sent] at sends
          cases sends
        · rw [setScheduler_of_ne f _ same]
          exact sends
      · right
        by_cases same : d = u
        · subst same
          rw [setScheduler_self]
          rcases wakeful with woken | ⟨_, start⟩
          · exact (woken.step steps).imp_right fun ⟨due, _⟩ => ⟨due, rfl⟩
          · rw [returned] at start
            cases start
        · rw [setScheduler_of_ne f _ same]
          exact wakeful
  | phase u answers iterates sent inside g point resumes =>
      rcases wakeful with ⟨w, queued, sends, asks⟩ | wakeful
      · refine Or.inr (Or.inl ⟨w, queued, ?_, asks⟩)
        by_cases same : w = u
        · subst same
          rw [sent] at sends
          cases sends
        · rw [advance_of_ne f _ _ same]
          exact sends
      · by_cases same : d = u
        · subst same
          rcases wakeful with woken | ⟨_, start⟩
          · right
            refine Or.inr (Or.inl ?_)
            rw [advance_self]
            exact woken
          · left
            refine ⟨start, ?_⟩
            dsimp only
            rw [advance_self]
            obtain ⟨ready, _, same⟩ := point_of_start (start ▸ resumes)
            rw [same]
            cases ready <;> exact Point.noConfusion
        · right
          right
          rw [advance_of_ne f _ _ same]
          exact wakeful
  | thread u act move thread idle steps => exact Or.inr (wakeful.setThread orderly idle steps)
  | outside act k buffer foreign grown limits reads => exact Or.inr wakeful

end Flowgraph

end TorchDsp
