import TorchDsp.Flowgraph.Views
import TorchDsp.Wrapper.Pair

/-! # Iterations without interruption

The turns of one scheduler, taken one after the other, run its iteration as
`run_one_iteration` runs it, push the notifications in their order and hand the status
to the thread (`TorchDsp.Flowgraph.run_of_iteration`). What a worker with iterations of
a single step can do, a scheduler among others can do, too.
-/

namespace TorchDsp

open GraphExecutor ThreadWrapper

namespace Flowgraph

variable {n : Nat} {opts : Fin n → SchedulerTritonOptions} {wiring : Wiring n}
  {f h h' : Flowgraph n} {u v : Fin n} {answers : Answers}

/-- A thread with more messages in its queue. -/
def received (thread : ThreadWrapper.State) (msgs : List SchedulerMessage) :
    ThreadWrapper.State :=
  { thread with wrapper := { thread.wrapper with msgq := thread.wrapper.msgq ++ msgs } }

/-- The messages among some that go to a scheduler. -/
def addressed (v : Fin n) (msgs : List (Fin n × SchedulerMessage)) : List SchedulerMessage :=
  msgs.filterMap fun entry => if entry.1 = v then some entry.2 else none

/-- The scheduler `u` is inside an iteration that began in `f`: its executor works on
`g`, stands at `point` and has pushed `sent`; `sending` are still to be pushed. -/
structure Inside (f : Flowgraph n) (u : Fin n) (g : Group) (point : Point)
    (sent sending : List (Fin n × SchedulerMessage)) (h : Flowgraph n) : Prop where
  group : h.group u = g
  point : (h.schedulers u).point = point
  sending : (h.schedulers u).sending = sending
  thread : (h.schedulers u).thread = received (f.schedulers u).thread (addressed u sent)
  others : ∀ v, v ≠ u → h.schedulers v = { f.schedulers v with
    thread := received (f.schedulers v).thread (addressed v sent) }
  buffers : ∀ k, h.buffers k = { f.buffers k with totalWritten := (g.buffers k).totalWritten }

/-- The flowgraph after an iteration of `u` that nothing has come between. -/
structure Iterated (opts : Fin n → SchedulerTritonOptions) (wiring : Wiring n) (f : Flowgraph n)
    (u : Fin n) (iteration : Iteration) (f' : Flowgraph n) : Prop where
  group : f'.group u = iteration.group
  point : (f'.schedulers u).point = .start
  sending : (f'.schedulers u).sending = []
  thread : ThreadWrapper.Step (opts u)
    (received (f.schedulers u).thread (addressed u (iteration.events.flatMap (wiring.messages u))))
    (.step iteration.status) (f'.schedulers u).thread
  others : ∀ v, v ≠ u → f'.schedulers v = { f.schedulers v with
    thread := received (f.schedulers v).thread
      (addressed v (iteration.events.flatMap (wiring.messages u))) }
  buffers : ∀ k, f'.buffers k =
    { f.buffers k with totalWritten := (iteration.group.buffers k).totalWritten }

/-- A thread without messages stays as it is. -/
@[simp] theorem received_nil (thread : ThreadWrapper.State) : received thread [] = thread := by
  unfold received
  rw [List.append_nil]

/-- The thread is still inside its iteration. -/
theorem Inside.due {g : Group} {point : Point} {sent sending : List (Fin n × SchedulerMessage)}
    (inside : Inside f u g point sent sending h)
    (due : (f.schedulers u).thread.aboutToIterate = true) :
    (h.schedulers u).thread.aboutToIterate = true := by
  rw [inside.thread]
  exact due

private theorem addressed_append (v : Fin n) (msgs later : List (Fin n × SchedulerMessage)) :
    addressed v (msgs ++ later) = addressed v msgs ++ addressed v later :=
  List.filterMap_append

/-- One more message to a thread. -/
theorem push_received (thread : ThreadWrapper.State) (sent : List (Fin n × SchedulerMessage))
    (v : Fin n) (msg : SchedulerMessage) :
    received thread (addressed v (sent ++ [(v, msg)])) =
      { received thread (addressed v sent) with
        wrapper := (received thread (addressed v sent)).wrapper.pushMessage msg } := by
  have more : addressed v (sent ++ [(v, msg)]) = addressed v sent ++ [msg] := by
    rw [addressed_append]
    simp [addressed]
  rw [more]
  simp only [received, pushMessage, List.append_assoc]

private theorem addressed_other {v w : Fin n} (other : v ≠ w)
    (sent : List (Fin n × SchedulerMessage)) (msg : SchedulerMessage) :
    addressed v (sent ++ [(w, msg)]) = addressed v sent := by
  rw [addressed_append]
  simp [addressed, Ne.symm other]

variable (answers) in
/-- **A message arrives.** -/
theorem Inside.deliver {g : Group} {point : Point} {sent rest : List (Fin n × SchedulerMessage)}
    {msg : SchedulerMessage} (inside : Inside f u g point sent ((v, msg) :: rest) h)
    (due : (f.schedulers u).thread.aboutToIterate = true) :
    ∃ h', Step opts wiring h (.turn u answers) h' ∧
      Inside f u g point (sent ++ [(v, msg)]) rest h' := by
  have iterates := inside.due due
  let popped := h.setScheduler u { h.schedulers u with sending := rest }
  have thread (w : Fin n) : (popped.schedulers w).thread =
      received (f.schedulers w).thread (addressed w sent) := by
    by_cases own : w = u
    · subst own
      rw [setScheduler_self]
      exact inside.thread
    · rw [setScheduler_of_ne _ _ own, inside.others w own]
  let pushed : ThreadWrapper.State := { (popped.schedulers v).thread with
    wrapper := (popped.schedulers v).thread.wrapper.pushMessage msg }
  have scheduler (w : Fin n) : (popped.setThread v pushed).schedulers w =
      { popped.schedulers w with
        thread := received (f.schedulers w).thread (addressed w (sent ++ [(v, msg)])) } := by
    by_cases addressee : w = v
    · subst addressee
      rw [push_received, ← thread]
      exact setScheduler_self ..
    · rw [addressed_other addressee, ← thread]
      exact setScheduler_of_ne _ _ addressee
  refine ⟨popped.setThread v pushed, ?_, ?_, ?_, ?_, ?_, fun w other => ?_, inside.buffers⟩
  · simp only [Step, Flowgraph.next, turn, iterates, inside.sending, ↓reduceIte]
    rfl
  · rw [← inside.group]
    refine group_of_same (fun w => ?_) rfl
    rw [scheduler]
    by_cases own : w = u
    · subst own
      rw [setScheduler_self]
    · rw [setScheduler_of_ne _ _ own]
  · rw [scheduler, setScheduler_self]
    exact inside.point
  · rw [scheduler, setScheduler_self]
  · rw [scheduler, setScheduler_self]
  · rw [scheduler, setScheduler_of_ne _ _ other, inside.others w other]

variable (answers) in
/-- All messages of a phase arrive. -/
theorem Inside.deliverAll {g : Group} {point : Point}
    {sent sending : List (Fin n × SchedulerMessage)} (inside : Inside f u g point sent sending h)
    (due : (f.schedulers u).thread.aboutToIterate = true) :
    ∃ taken h', Transition.Run (Step opts wiring) h taken h' ∧
      (∀ t ∈ taken, t.label = .turn u answers) ∧ Inside f u g point (sent ++ sending) [] h' := by
  induction sending generalizing sent h with
  | nil => exact ⟨[], h, .nil h, fun _ absent => (List.not_mem_nil absent).elim,
      (List.append_nil sent).symm ▸ inside⟩
  | cons first rest ih =>
      obtain ⟨v, msg⟩ := first
      obtain ⟨middle, step, inside⟩ := inside.deliver answers due
      obtain ⟨taken, h', run, own, inside⟩ := ih inside
      refine ⟨_ :: taken, h', .cons step run, ?_, ?_⟩
      · rintro t (_ | ⟨_, later⟩)
        · rfl
        · exact own t later
      · rwa [List.append_assoc] at inside

/-! ## An iteration -/

/-- A phase adds to the calls of its iteration. -/
theorem events_of_resume {g g' : Group} {point point' : Point}
    (resumes : resume answers g point = .ok (g', point'))
    (inside : ∀ status events, point ≠ .returned status events) :
    point.events <+: point'.events := by
  cases point with
  | start | inputsChecked | outputsChecked => exact List.nil_prefix
  | worked l =>
      obtain ⟨⟨posted, events⟩, releases, ends⟩ := Except.bind_eq_ok resumes
      cases ends
      obtain ⟨_, _, releases⟩ := Except.bind_eq_ok releases
      cases releases
      exact List.prefix_append _ _
  | released l =>
      obtain ⟨⟨posted, events⟩, publishes, ends⟩ := Except.bind_eq_ok resumes
      cases ends
      obtain ⟨_, _, publishes⟩ := Except.bind_eq_ok publishes
      cases publishes
      exact List.prefix_append _ _
  | published l =>
      obtain ⟨events, callbacks, ends⟩ := Except.bind_eq_ok resumes
      cases ends
      split at callbacks
      · exact (unclog_eq_ok.mp callbacks).2 ▸ List.prefix_append _ _
      · split at callbacks
        · exact (unclog_eq_ok.mp callbacks).2 ▸ List.prefix_append _ _
        · cases callbacks
          exact List.prefix_rfl
  | returned status events => exact (inside status events rfl).elim

/-- **A phase and its messages.** -/
theorem Inside.phase {g g' : Group} {point point' : Point}
    (inside : Inside f u g point (point.events.flatMap (wiring.messages u)) [] h)
    (due : (f.schedulers u).thread.aboutToIterate = true)
    (goes : ∀ status events, point ≠ .returned status events)
    (resumes : resume answers g point = .ok (g', point')) :
    ∃ taken h', Transition.Run (Step opts wiring) h taken h' ∧
      (∀ t ∈ taken, t.label = .turn u answers) ∧
      Inside f u g' point' (point'.events.flatMap (wiring.messages u)) [] h' := by
  have iterates := inside.due due
  have seen : resume answers (h.group u) (h.schedulers u).point = .ok (g', point') := by
    rw [inside.group, inside.point]
    exact resumes
  have step : Step opts wiring h (.turn u answers) (h.advance wiring u g' point') := by
    simp only [Step, Flowgraph.next, turn, iterates, inside.sending, ↓reduceIte]
    split
    · rename_i status events returned
      exact (goes status events (inside.point.symm.trans returned)).elim
    · rw [seen]
  have effect := effect_of_resume seen
  have moved : Inside f u g' point' (point.events.flatMap (wiring.messages u))
      ((point'.events.drop point.events.length).flatMap (wiring.messages u))
      (h.advance wiring u g' point') := by
    refine ⟨group_advance effect, ?_, ?_, ?_, fun v other => ?_, fun k => ?_⟩
    · rw [advance_self]
    · rw [advance_self, inside.point]
    · rw [advance_self]
      exact inside.thread
    · rw [advance_of_ne h g' point' other]
      exact inside.others v other
    · change { h.buffers k with totalWritten := (g'.buffers k).totalWritten } = _
      rw [inside.buffers]
  obtain ⟨taken, h', run, own, arrived⟩ := moved.deliverAll answers due
  refine ⟨_ :: taken, h', .cons step run, ?_, ?_⟩
  · rintro t (_ | ⟨_, later⟩)
    · rfl
    · exact own t later
  · rw [← List.flatMap_append] at arrived
    obtain ⟨later, calls⟩ := events_of_resume resumes goes
    rwa [← calls, List.drop_left, calls] at arrived

variable (opts) in
/-- Phase after phase. -/
theorem Inside.phases {g g' : Group} {point point' : Point} {phases : Nat}
    (inside : Inside f u g point (point.events.flatMap (wiring.messages u)) [] h)
    (due : (f.schedulers u).thread.aboutToIterate = true)
    (resumes : resumeFor answers phases g point = .ok (g', point')) :
    ∃ taken h', Transition.Run (Step opts wiring) h taken h' ∧
      (∀ t ∈ taken, t.label = .turn u answers) ∧
      Inside f u g' point' (point'.events.flatMap (wiring.messages u)) [] h' := by
  have ended {h : Flowgraph n} {g : Group} {point : Point}
      (inside : Inside f u g point (point.events.flatMap (wiring.messages u)) [] h)
      (here : (g, point) = (g', point')) :
      ∃ taken h', Transition.Run (Step opts wiring) h taken h' ∧
        (∀ t ∈ taken, t.label = .turn u answers) ∧
        Inside f u g' point' (point'.events.flatMap (wiring.messages u)) [] h' := by
    cases here
    exact ⟨[], h, .nil h, fun _ absent => (List.not_mem_nil absent).elim, inside⟩
  induction phases generalizing g point h with
  | zero => exact ended inside (Except.ok.inj resumes)
  | succ phases ih =>
      by_cases returned : ∃ status events, point = .returned status events
      · obtain ⟨status, events, rfl⟩ := returned
        exact ended inside (Except.ok.inj resumes)
      · have goes (status : ExecutorIterationStatus) (events : List Event) :
            point ≠ .returned status events :=
          fun same => returned ⟨status, events, same⟩
        rw [resumeFor] at resumes
        · obtain ⟨⟨g₁, point₁⟩, first, later⟩ := Except.bind_eq_ok resumes
          obtain ⟨taken, middle, run, own, moved⟩ := inside.phase due goes first
          obtain ⟨taken', h', onward, own', arrived⟩ := ih moved later
          exact ⟨taken ++ taken', h', run.append onward,
            List.forall_mem_append.mpr ⟨own, own'⟩, arrived⟩
        · exact goes

/-- A thread that is about to iterate is not blocked. -/
theorem step_of_aboutToIterate (opts : SchedulerTritonOptions) {σ : ThreadWrapper.State}
    (status : ExecutorIterationStatus) (due : σ.aboutToIterate = true) :
    ∃ σ', ThreadWrapper.Step opts σ (.step status) σ' := by
  unfold State.aboutToIterate at due
  obtain ⟨stands, works⟩ := Bool.and_eq_true_iff.mp due
  have stands : σ.pc = .work := of_decide_eq_true stands
  simp only [ThreadWrapper.Step, ThreadWrapper.next, threadBody, stands, works, ↓reduceIte]
  exact ⟨_, rfl⟩

/-- **An iteration in one piece.** -/
theorem run_of_iteration {iteration : Iteration}
    (due : (f.schedulers u).thread.aboutToIterate = true)
    (between : (f.schedulers u).point = .start) (sent : (f.schedulers u).sending = [])
    (returns : runOneIteration answers (f.group u) = .ok iteration) :
    ∃ taken f', Transition.Run (Step opts wiring) f taken f' ∧
      (∀ t ∈ taken, t.label = .turn u answers) ∧ Iterated opts wiring f u iteration f' := by
  have begun : Inside f u (f.group u) .start (Point.start.events.flatMap (wiring.messages u)) []
      f := by
    refine ⟨rfl, between, sent, ?_, fun v _ => ?_, fun k => rfl⟩
    · exact (received_nil _).symm
    · exact congrArg (fun thread => { f.schedulers v with thread }) (received_nil _).symm
  have resumes := resumeFor_eq answers (f.group u)
  rw [returns] at resumes
  obtain ⟨taken, h, run, own, inside⟩ := begun.phases opts due resumes
  have iterates := inside.due due
  obtain ⟨thread, steps⟩ := step_of_aboutToIterate (opts u) iteration.status iterates
  let finished := h.setScheduler u { h.schedulers u with thread, point := .start }
  have step : Step opts wiring h (.turn u answers) finished := by
    have body : threadBody (opts u) (h.schedulers u).thread iteration.status = some thread := steps
    simp only [Step, Flowgraph.next, turn, iterates, inside.sending, inside.point, body,
      ↓reduceIte, Option.map_some, finished]
  refine ⟨_, finished, run.snoc step,
    List.forall_mem_append.mpr ⟨own, fun t listed => ?_⟩, ?_, ?_, ?_, ?_, fun v other => ?_,
    inside.buffers⟩
  · cases List.mem_singleton.mp listed
    rfl
  · rw [← inside.group]
    refine group_of_same (fun v => ?_) rfl
    by_cases here : v = u
    · subst here
      rw [setScheduler_self]
    · rw [setScheduler_of_ne _ _ here]
  · rw [setScheduler_self]
  · rw [setScheduler_self]
    exact inside.sending
  · rw [setScheduler_self]
    rw [inside.thread] at steps
    exact steps
  · rw [setScheduler_of_ne _ _ other]
    exact inside.others v other

/-- The first of two schedulers passes five items on and notifies the second one. -/
theorem five_in_one_piece : ∃ front f back f',
    Transition.Run (Step (fun _ => {}) oneToNext) (inRow 5) front f ∧
      Transition.Run (Step (fun _ => {}) oneToNext) f back f' ∧
      (∀ t ∈ back, t.label = .turn 0 (moving 5)) ∧ (f'.buffers 1).totalWritten = 5 ∧
      (f'.schedulers 1).thread.wrapper.msgq = [.action .notifyInput] := by
  obtain ⟨f, iteration, follows, due, between, sent, returns, moved, queued, notified⟩ :
      ∃ f iteration, Transition.follow (next (fun _ => {}) oneToNext) (inRow 5)
          ([.openGate 0, .push 0 (.action .notifyAll)] ++
            List.replicate 8 (.turn 0 (moving 5))) = some f ∧
        (f.schedulers 0).thread.aboutToIterate = true ∧ (f.schedulers 0).point = .start ∧
        (f.schedulers 0).sending = [] ∧
        runOneIteration (moving 5) (f.group 0) = .ok iteration ∧
        (iteration.group.buffers 1).totalWritten = 5 ∧
        (f.schedulers 1).thread.wrapper.msgq = [] ∧
        addressed 1 (iteration.events.flatMap (oneToNext.messages 0)) = [.action .notifyInput] :=
    ⟨_, _, rfl, rfl, rfl, rfl, rfl, rfl, rfl, rfl⟩
  obtain ⟨front, run, _⟩ := Transition.Run.of_follow follows
  obtain ⟨back, f', piece, own, iterated⟩ := run_of_iteration due between sent returns
  refine ⟨front, f, back, f', run, piece, own, ?_, ?_⟩
  · rw [iterated.buffers, moved]
  · rw [iterated.others 1 (by decide), notified]
    exact congrArg (· ++ [SchedulerMessage.action .notifyInput]) queued

end Flowgraph

end TorchDsp
