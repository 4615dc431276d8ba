import TorchDsp.Wrapper.Exit

/-! # The order of messages

The worker handles messages in the order in which they arrive in its queue. The queue
also gets the NOTIFY_ALL messages of the worker itself; all others are handled in the
order in which other threads push them (`TorchDsp.ThreadWrapper.handled_in_order`).
A worker that ends because of an EXIT message has handled what was pushed before it,
and nothing of what was pushed after it (`TorchDsp.ThreadWrapper.handled_before_exit`).
-/

namespace TorchDsp

namespace ThreadWrapper

def Record.message : Record → Option SchedulerMessage
  | .handled msg _ => some msg
  | .iterated .. => none

/-- The messages that a worker has handled, the first one first. -/
def handledMessages (log : List Record) : List SchedulerMessage :=
  (log.filterMap Record.message).reverse

/-- The message that the thread has popped and not handled. -/
def Pc.inHand : Pc → List SchedulerMessage
  | .handle msg => [msg]
  | _ => []

/-- The messages that are not handled, in their order. -/
def State.pending (σ : State) : List SchedulerMessage :=
  σ.pc.inHand ++ σ.wrapper.msgq

/-- The messages that another thread pushes. -/
def Act.messages : Act → List SchedulerMessage
  | .push msg => [msg]
  | _ => []

/-- The messages that a step handles. -/
def Act.handles (σ : State) : Act → List SchedulerMessage
  | .step _ => σ.pc.inHand
  | _ => []

/-- The messages that other threads have pushed in a run. -/
def pushedMessages (taken : List (Transition.Taken State Act)) : List SchedulerMessage :=
  taken.flatMap fun t => t.label.messages

variable {opts : SchedulerTritonOptions} {σ σ' : State} {act : Act} {id : Nat}
  {taken : List (Transition.Taken State Act)}

private theorem handledMessages_handled (msg : SchedulerMessage) (pushed : List MonitorMessage)
    (log : List Record) :
    handledMessages (.handled msg pushed :: log) = handledMessages log ++ [msg] := by
  simp only [handledMessages, List.filterMap_cons, Record.message, List.reverse_cons]

private theorem handledMessages_iterated (s : ExecutorIterationStatus)
    (pushed : List MonitorMessage) (log : List Record) :
    handledMessages (.iterated s pushed :: log) = handledMessages log := rfl

private theorem mem_handledMessages_exit {log : List Record} :
    .action .exit ∈ handledMessages log ↔ HandledExit log := by
  rw [handledMessages, List.mem_reverse, List.mem_filterMap]
  constructor
  · rintro ⟨record, member, same⟩
    cases record with
    | handled msg pushed => cases same; exact ⟨pushed, member⟩
    | iterated => cases same
  · rintro ⟨pushed, member⟩
    exact ⟨_, member, rfl⟩

private theorem mem_pushedMessages {msg : SchedulerMessage} :
    msg ∈ pushedMessages taken ↔ ∃ t ∈ taken, t.label = .push msg := by
  rw [pushedMessages, List.mem_flatMap]
  refine exists_congr fun t => and_congr_right fun _ => ?_
  cases t.label with
  | push arrived =>
      rw [Act.messages, List.mem_singleton, Act.push.injEq]
      exact eq_comm
  | step | openGate | requestStop =>
      exact iff_of_false List.not_mem_nil fun absurd => by cases absurd

/-- What handling a message adds to the queue. -/
theorem msgq_handleMessage (w : ThreadWrapper) (msg : SchedulerMessage) :
    (w.handleMessage msg).1.msgq = w.msgq ∨
      (w.handleMessage msg).1.msgq = w.msgq ++ [.action .notifyAll] := by
  cases msg with
  | action asked => cases asked <;> first | exact Or.inl rfl | exact Or.inr rfl
  | _ => exact Or.inl rfl

/-- What an iteration adds to the queue. -/
theorem msgq_handleWorkNotification (opts : SchedulerTritonOptions) (w : ThreadWrapper)
    (s : ExecutorIterationStatus) :
    (handleWorkNotification opts w s).1.msgq = w.msgq ∨
      (handleWorkNotification opts w s).1.msgq = w.msgq ++ [.action .notifyAll] := by
  rw [handleWorkNotification_fst]
  split
  · split
    · exact Or.inl rfl
    · exact Or.inr rfl
  · exact Or.inl rfl

/-- A step of the thread handles the message in its hand. -/
theorem Step.handled (step : Step opts σ act σ') :
    handledMessages σ'.log = handledMessages σ.log ++ act.handles σ := by
  cases step_iff_moved.mp step with
  | handle s msg stands =>
      rw [handledMessages_handled]
      simp only [Act.handles, stands, Pc.inHand]
  | push | openGate | requestStop => exact (List.append_nil _).symm
  | start s stands | leave s stands | enter s stands | ask s stands | drained s stands
  | empty s stands | pop s stands | iterate s stands | idle s stands =>
      simp only [Act.handles, stands, Pc.inHand, List.append_nil, handledMessages_iterated]

/-- Messages leave the queue in the order in which they enter it. -/
theorem Step.in_order (step : Step opts σ act σ') (keep : SchedulerMessage → Bool)
    (ignores : keep (.action .notifyAll) = false) :
    (act.handles σ).filter keep ++ σ'.pending.filter keep =
      σ.pending.filter keep ++ act.messages.filter keep := by
  have own (queue queue' : List SchedulerMessage)
      (grown : queue' = queue ∨ queue' = queue ++ [.action .notifyAll]) :
      queue'.filter keep = queue.filter keep := by
    rcases grown with rfl | rfl
    · rfl
    · rw [List.filter_append, List.filter_cons_of_neg (by simp [ignores]), List.filter_nil,
        List.append_nil]
  cases step_iff_moved.mp step with
  | push msg =>
      rw [← List.filter_append σ.pending]
      exact congrArg (List.filter keep) (List.append_assoc σ.pc.inHand σ.wrapper.msgq [msg]).symm
  | pop s stands msg rest queue =>
      simp only [Act.handles, Act.messages, State.pending, stands, Pc.inHand, queue,
        List.nil_append, List.singleton_append, List.filter_nil, List.append_nil]
  | handle s msg stands =>
      simp only [Act.handles, Act.messages, State.pending, stands, Pc.inHand, List.nil_append,
        List.filter_append, List.filter_nil, List.append_nil]
      rw [own _ _ (msgq_handleMessage σ.wrapper msg)]
  | iterate s stands due =>
      simp only [Act.handles, Act.messages, State.pending, stands, Pc.inHand, List.nil_append,
        List.filter_nil, List.append_nil]
      exact own _ _ (msgq_handleWorkNotification opts σ.wrapper s)
  | openGate | requestStop => exact (List.append_nil _).symm
  | start s stands | leave s stands | enter s stands | ask s stands | drained s stands
  | empty s stands | idle s stands =>
      simp only [Act.handles, Act.messages, State.pending, stands, Pc.inHand, List.nil_append,
        List.filter_nil, List.append_nil]

/-- **Messages are handled in the order in which they are pushed.** What other
threads have pushed is what the worker has handled, followed by what is pending. -/
theorem handled_in_order (run : Transition.Run (Step opts) (.initial id) taken σ)
    (keep : SchedulerMessage → Bool) (ignores : keep (.action .notifyAll) = false) :
    (handledMessages σ.log).filter keep ++ σ.pending.filter keep =
      (pushedMessages taken).filter keep := by
  have all {first last : State} {taken : List (Transition.Taken State Act)}
      (run : Transition.Run (Step opts) first taken last) :
      (handledMessages last.log).filter keep ++ last.pending.filter keep =
        (handledMessages first.log).filter keep ++ (first.pending.filter keep ++
          (pushedMessages taken).filter keep) := by
    induction run with
    | nil => rw [pushedMessages, List.flatMap_nil, List.filter_nil, List.append_nil]
    | @cons source middle final act rest step _ ih =>
        have arrived : pushedMessages (⟨source, act, middle⟩ :: rest) =
            act.messages ++ pushedMessages rest := rfl
        have order := congrArg (· ++ (pushedMessages rest).filter keep) (step.in_order keep ignores)
        simp only [List.append_assoc] at order
        rw [ih, step.handled, arrived, List.filter_append, List.filter_append, List.append_assoc,
          order]
  exact all run

/-! ## The messages before EXIT -/

/-- EXIT is the last message that a worker handles. -/
theorem exit_is_last (run : Transition.Run (Step opts) (.initial id) taken σ)
    (handled : HandledExit σ.log) : ∃ before, handledMessages σ.log = before ++ [.action .exit] ∧
      .action .exit ∉ before := by
  have absent {older : List Record} (first : ¬ HandledExit older) :
      .action .exit ∉ handledMessages older :=
    fun member => first (mem_handledMessages_exit.mp member)
  cases leaving_of_run run handled with
  | quiet pushed older first log => exact ⟨_, by rw [log, handledMessages_handled], absent first⟩
  | worked s last pushed older first due log =>
      exact ⟨_, by rw [log, handledMessages_iterated, handledMessages_handled], absent first⟩

/-- A worker that nobody asks to stop ends because of an EXIT message. -/
theorem handledExit_of_exited (run : Transition.Run (Step opts) (.initial id) taken σ)
    (unasked : ∀ t ∈ taken, t.label ≠ .requestStop) (exited : σ.pc = .exited) :
    HandledExit σ.log := by
  have holds := (run.invariant
    (fun τ => (τ.wrapper.threadStopped = true → HandledExit τ.log) ∧
      (τ.pc = .exited → τ.wrapper.threadStopped = true))
    ⟨fun stopped => (Bool.false_ne_true stopped).elim, Pc.noConfusion⟩
    fun ⟨source, act, target⟩ member step ⟨stopped, ended⟩ => by
      have moved : Moved opts source act target := step_iff_moved.mp step
      cases moved with
      | requestStop => exact (unasked _ member rfl).elim
      | push | openGate => exact ⟨stopped, ended⟩
      | leave _ _ stops => exact ⟨stopped, fun _ => stops⟩
      | handle s msg stands =>
          refine ⟨fun stops => ?_, Pc.noConfusion⟩
          by_cases exit : msg = .action .exit
          · subst exit
            exact ⟨_, List.mem_cons_self⟩
          · obtain ⟨pushed, earlier⟩ :=
              stopped ((handleMessage_threadStopped source.wrapper exit).symm.trans stops)
            exact ⟨pushed, List.mem_cons_of_mem _ earlier⟩
      | iterate s stands due =>
          refine ⟨fun stops => ?_, Pc.noConfusion⟩
          obtain ⟨pushed, earlier⟩ := stopped
            ((handleWorkNotification_keeps opts source.wrapper s).2.1.symm.trans stops)
          exact ⟨pushed, List.mem_cons_of_mem _ earlier⟩
      | start | enter | ask | drained | empty | pop | idle =>
          exact ⟨stopped, Pc.noConfusion⟩).1
  exact holds.1 (holds.2 exited)

/-- What comes before the first occurrence of an entry, and after it. -/
theorem append_cons_inj_of_first {α : Type} {a : α} {front front' back back' : List α}
    (first : a ∉ front) (first' : a ∉ front') (same : front ++ a :: back = front' ++ a :: back') :
    front = front' ∧ back = back' := by
  induction front generalizing front' with
  | nil =>
      cases front' with
      | nil => exact ⟨rfl, (List.cons.inj same).2⟩
      | cons b front' =>
          exact (first' ((List.cons.inj same).1 ▸ List.mem_cons_self)).elim
  | cons b front ih =>
      cases front' with
      | nil => exact (first ((List.cons.inj same).1 ▸ List.mem_cons_self)).elim
      | cons b' front' =>
          obtain ⟨head, tail⟩ := List.cons.inj same
          obtain ⟨rest, after⟩ := ih (List.not_mem_of_not_mem_cons first)
            (List.not_mem_of_not_mem_cons first') tail
          exact ⟨by rw [head, rest], after⟩

/-- **What a worker handles before EXIT ends it.** It has handled what other threads
pushed before the first EXIT message, and what they pushed later is pending. -/
theorem handled_before_exit (run : Transition.Run (Step opts) (.initial id) taken σ)
    (unasked : ∀ t ∈ taken, t.label ≠ .requestStop) (exited : σ.pc = .exited) :
    ∃ front t back, taken = front ++ t :: back ∧ t.label = .push (.action .exit) ∧
      (∀ t' ∈ front, t'.label ≠ .push (.action .exit)) ∧
      ∀ keep : SchedulerMessage → Bool, keep (.action .notifyAll) = false →
        keep (.action .exit) = false →
        (handledMessages σ.log).filter keep = (pushedMessages front).filter keep ∧
          σ.pending.filter keep = (pushedMessages back).filter keep := by
  obtain ⟨before, handled, first⟩ := exit_is_last run (handledExit_of_exited run unasked exited)
  have order (keep : SchedulerMessage → Bool) (ignores : keep (.action .notifyAll) = false)
      (exit : keep (.action .exit) = true) : (pushedMessages taken).filter keep =
        before.filter keep ++ .action .exit :: σ.pending.filter keep := by
    rw [← handled_in_order run keep ignores, handled, List.filter_append, List.filter_singleton,
      exit, Bool.cond_true, List.append_assoc, List.singleton_append]
  have arrives : Act.push (.action .exit) ∈ taken.map Transition.Taken.label := by
    have among : .action .exit ∈ (pushedMessages taken).filter (· = .action .exit) := by
      rw [order _ rfl rfl]
      exact List.mem_append_right _ List.mem_cons_self
    exact List.mem_map.mpr (mem_pushedMessages.mp (List.mem_filter.mp among).1)
  obtain ⟨labels, later, split, none⟩ := List.eq_append_cons_of_mem arrives
  obtain ⟨front, rest, rfl, rfl, tail⟩ := List.map_eq_append_iff.mp split
  obtain ⟨t, back, rfl, label, rfl⟩ := List.map_eq_cons_iff.mp tail
  refine ⟨front, t, back, rfl, label, fun t' member same => none ?_, fun keep ignores drops => ?_⟩
  · exact List.mem_map.mpr ⟨t', member, same⟩
  · have whole := order (fun msg => keep msg || msg = .action .exit)
      (by rw [ignores, Bool.false_or, decide_eq_false_iff_not]; exact fun absurd => by cases absurd)
      (by rw [decide_eq_true rfl, Bool.or_true])
    have arrived : pushedMessages (front ++ t :: back) =
        pushedMessages front ++ .action .exit :: pushedMessages back := by
      simp only [pushedMessages, List.flatMap_append, List.flatMap_cons, label, Act.messages,
        List.singleton_append]
    rw [arrived, List.filter_append, List.filter_cons_of_pos (by simp)] at whole
    have absent (msgs : List SchedulerMessage) (none : .action .exit ∉ msgs) : .action .exit ∉
        msgs.filter fun msg => keep msg || msg = .action .exit :=
      fun member => none (List.mem_filter.mp member).1
    have outside : .action .exit ∉ pushedMessages front :=
      fun member => none (List.mem_map.mpr (mem_pushedMessages.mp member))
    obtain ⟨same, later⟩ := append_cons_inj_of_first (absent _ outside) (absent _ first) whole
    have narrow (msgs : List SchedulerMessage) :
        (msgs.filter fun msg => keep msg || msg = .action .exit).filter keep =
          msgs.filter keep := by
      rw [List.filter_filter]
      refine List.filter_congr fun msg _ => ?_
      cases keep msg <;> rfl
    refine ⟨?_, ?_⟩
    · rw [handled, List.filter_append, List.filter_singleton, drops, Bool.cond_false,
        List.append_nil, ← narrow before, ← same, narrow]
    · rw [← narrow σ.pending, ← later, narrow]

end ThreadWrapper

end TorchDsp
