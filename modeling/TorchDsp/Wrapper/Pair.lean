import TorchDsp.Executor.Notifications
import TorchDsp.Wrapper.Budget

/-! # Two adjacent workers

The notifications of an iteration are messages in the queue of the neighbour, which
answers each with an iteration of its own. While no index moves, a worker that gets
past its checks notifies all the same, and two such workers wake each other for
ever. The runs that come to rest are those whose iterations all fail a check
(`TorchDsp.Pair.quiesces_iff`).
-/

namespace TorchDsp

/-- A worker and the group it runs. -/
structure Worker where
  thread : ThreadWrapper.State
  group : Group

/-- One step of a worker's thread, with the calls that others can see. An iteration
is a single step over the worker's group; one that does not return is no step. -/
def Worker.turn (opts : SchedulerTritonOptions) (answers : Answers) (w : Worker) :
    Option (Worker × List Event) :=
  if w.thread.aboutToIterate then
    match GraphExecutor.runOneIteration answers w.group with
    | .error _ => none
    | .ok iteration =>
        (ThreadWrapper.threadBody opts w.thread iteration.status).map fun thread =>
          (⟨thread, iteration.group⟩, iteration.events)
  else
    (ThreadWrapper.threadBody opts w.thread .ready).map fun thread => ({ w with thread }, [])

def Worker.receive (w : Worker) (msgs : List SchedulerMessage) : Worker :=
  { w with thread := { w.thread with
      wrapper := msgs.foldl ThreadWrapper.pushMessage w.thread.wrapper } }

/-- A worker without messages stays as it is. -/
@[simp] theorem Worker.receive_nil (w : Worker) : w.receive [] = w := rfl

inductive Side
  | upstream
  | downstream
  deriving DecidableEq, Repr

def Side.other : Side → Side
  | .upstream => .downstream
  | .downstream => .upstream

/-- How many ports of the other worker a port is connected to: each output port of
the last block upstream, and each input port of the first block downstream. -/
structure Links where
  toDownstream : Nat → Nat
  toUpstream : Nat → Nat

/-- The messages that a call pushes to the other worker. Notifications of the outer
ports leave the pair. -/
def Links.messages (links : Links) : Side → Event → List SchedulerMessage
  | .upstream, .notify _ port .notifyInput =>
      List.replicate (links.toDownstream port) (.action .notifyInput)
  | .downstream, .notify _ port .notifyOutput =>
      List.replicate (links.toUpstream port) (.action .notifyOutput)
  | _, _ => []

/-- Two workers, the last block of one connected to the first block of the other.
While no index moves, both see the buffer between them as it is. -/
structure Pair where
  upstream : Worker
  downstream : Worker

/-- A step of one of the two workers. -/
structure Turn where
  side : Side
  answers : Answers

namespace Pair

def worker (p : Pair) : Side → Worker
  | .upstream => p.upstream
  | .downstream => p.downstream

def replace (p : Pair) (w : Worker) : Side → Pair
  | .upstream => { p with upstream := w }
  | .downstream => { p with downstream := w }

/-- The pair by itself: no messages come from outside. -/
def next (opts : Side → SchedulerTritonOptions) (links : Links) (p : Pair) (turn : Turn) :
    Option Pair :=
  ((p.worker turn.side).turn (opts turn.side) turn.answers).map fun (w, events) =>
    let p := p.replace w turn.side
    p.replace ((p.worker turn.side.other).receive (events.flatMap (links.messages turn.side)))
      turn.side.other

def Step (opts : Side → SchedulerTritonOptions) (links : Links) (p : Pair) (turn : Turn)
    (p' : Pair) : Prop :=
  next opts links p turn = some p'

/-- The iterations that the two workers can run without notifying each other. -/
def budget (opts : Side → SchedulerTritonOptions) (p : Pair) : Nat :=
  p.upstream.thread.budget (opts .upstream) + p.downstream.thread.budget (opts .downstream)

/-- A transition runs an iteration. -/
def iterates (t : Transition.Taken Pair Turn) : Bool :=
  (t.source.worker t.label.side).thread.aboutToIterate

/-- The group that a transition runs over, if it runs an iteration. -/
def groupOf (t : Transition.Taken Pair Turn) : Group :=
  (t.source.worker t.label.side).group

/-- A transition runs the given iteration. -/
structure Runs (t : Transition.Taken Pair Turn) (iteration : Iteration) : Prop where
  due : iterates t = true
  returns : GraphExecutor.runOneIteration t.label.answers (groupOf t) = .ok iteration

/-- An iteration of the transition moves no index and no buffer. -/
def Fruitless (t : Transition.Taken Pair Turn) : Prop :=
  ∀ iteration, Runs t iteration →
    iteration.group.ledger = (groupOf t).ledger ∧ t.label.answers.NoneMoved

/-- A run keeps silent, and what was queued at its start bounds its iterations. -/
structure Quiesces (opts : Side → SchedulerTritonOptions) (p : Pair)
    (taken : List (Transition.Taken Pair Turn)) : Prop where
  silent : ∀ t ∈ taken, ∀ iteration, Runs t iteration → iteration.Silent
  finite : taken.countP iterates ≤ p.budget opts

/-- What a step of a worker does. -/
theorem turn_eq_some {opts : SchedulerTritonOptions} {answers : Answers} {w w' : Worker}
    {events : List Event} (moves : w.turn opts answers = some (w', events)) :
    (∃ s, ThreadWrapper.Step opts w.thread (.step s) w'.thread) ∧
      ((w.thread.aboutToIterate = true ∧ ∃ iteration,
          GraphExecutor.runOneIteration answers w.group = .ok iteration ∧
            w'.group = iteration.group ∧ events = iteration.events) ∨
        w.thread.aboutToIterate = false ∧ w'.group = w.group ∧ events = []) := by
  unfold Worker.turn at moves
  cases due : w.thread.aboutToIterate with
  | true =>
      rw [if_pos due] at moves
      split at moves
      · cases moves
      · rename_i iteration returns
        obtain ⟨thread, steps, same⟩ := Option.map_eq_some_iff.mp moves
        cases same
        exact ⟨⟨_, steps⟩, Or.inl ⟨rfl, iteration, returns, rfl, rfl⟩⟩
  | false =>
      rw [if_neg (by rw [due]; exact Bool.false_ne_true)] at moves
      obtain ⟨thread, steps, same⟩ := Option.map_eq_some_iff.mp moves
      cases same
      exact ⟨⟨_, steps⟩, Or.inr ⟨rfl, rfl, rfl⟩⟩

/-! ## Runs that come to rest -/

private theorem messages_of_silent (links : Links) (side : Side) {events : List Event}
    (silent : ∀ p i action, .notify p i action ∉ events) :
    events.flatMap (links.messages side) = [] := by
  rw [List.flatMap_eq_nil_iff]
  intro event member
  cases event with
  | notify p i action => exact (silent p i action member).elim
  | _ => cases side <;> rfl

/-- A step that notifies nobody is paid for by the worker that takes it. -/
theorem Step.budget {opts : Side → SchedulerTritonOptions} {links : Links}
    {t : Transition.Taken Pair Turn} (step : Step opts links t.source t.label t.target)
    (silent : ∀ iteration, Runs t iteration → iteration.Silent) :
    t.target.budget opts + (if iterates t then 1 else 0) ≤ t.source.budget opts := by
  obtain ⟨source, ⟨side, answers⟩, target⟩ := t
  obtain ⟨⟨w, events⟩, moves, same⟩ := Option.map_eq_some_iff.mp step
  obtain ⟨⟨s, steps⟩, runs⟩ := turn_eq_some moves
  have quiet : events.flatMap (links.messages side) = [] := by
    rcases runs with ⟨due, iteration, returns, _, rfl⟩ | ⟨_, _, rfl⟩
    · exact messages_of_silent links side (silent iteration ⟨due, returns⟩)
    · rfl
  have cost := steps.budget
  simp only [quiet, Worker.receive_nil] at same
  subst same
  unfold Pair.budget iterates
  cases side with
  | upstream =>
      simp only [replace, worker, Side.other] at cost ⊢
      omega
  | downstream =>
      simp only [replace, worker, Side.other] at cost ⊢
      omega

/-- **Which runs come to rest.** -/
theorem quiesces_iff {opts : Side → SchedulerTritonOptions} {links : Links} {p p' : Pair}
    {taken : List (Transition.Taken Pair Turn)}
    (run : Transition.Run (Step opts links) p taken p') (fruitless : ∀ t ∈ taken, Fruitless t) :
    Quiesces opts p taken ↔ ∀ t ∈ taken, ∀ iteration, Runs t iteration →
      ¬ (GraphExecutor.InputsReady t.label.answers (groupOf t) ∧
        GraphExecutor.OutputsReady t.label.answers (groupOf t)) := by
  have silent_iff (t : Transition.Taken Pair Turn) (member : t ∈ taken) (iteration : Iteration)
      (runs : Runs t iteration) :=
    GraphExecutor.silent_iff runs.returns (fruitless t member iteration runs).2
  constructor
  · intro quiesces t member iteration runs
    exact (silent_iff t member iteration runs).mp (quiesces.silent t member iteration runs)
  · intro fails
    have silent (t : Transition.Taken Pair Turn) (member : t ∈ taken) (iteration : Iteration)
        (runs : Runs t iteration) : iteration.Silent :=
      (silent_iff t member iteration runs).mpr (fails t member iteration runs)
    have bounded := run.countP_le iterates (Pair.budget opts) fun t member step =>
      step.budget (silent t member)
    exact ⟨silent, Nat.le_trans (Nat.le_add_left _ _) bounded⟩

/-! ## Two workers that lack items -/

/-- A block that works in batches of eight, with the given items at its input. -/
def batchesOfEight (items : Nat) : Group where
  blocks := [{ kind := .triton true, outputMultiple := some 8
               inputs := [{ bufp := some ⟨0, 0, 0, 0⟩ }], outputs := [{ bufp := some 1 }] }]
  buffers := fun k => { bufSize := 16, totalWritten := if k = 0 then items else 0 }

/-- `do_work` lacks items whenever it is called. -/
def lackingItems : Answers where
  reports := fun _ => [⟨.insufficientInputItems, fun _ => 0, fun _ => 0, fun _ => 0, fun _ => 0,
    false⟩]

/-- A thread before its next pass. -/
def between (msgq : List SchedulerMessage) (log : List ThreadWrapper.Record) :
    ThreadWrapper.State where
  wrapper := { msgq, readyToStart := true }
  pc := .outer
  valid := false
  doSomeWork := true
  log

/-- Two workers with the same items, and with the given queues and records. -/
def adjacent (items : Nat) (upstream downstream : List SchedulerMessage)
    (first second : List ThreadWrapper.Record) : Pair :=
  ⟨⟨between upstream first, batchesOfEight items⟩, ⟨between downstream second,
    batchesOfEight items⟩⟩

/-- Each end of one worker is connected to one port of the other. -/
def oneToOne : Links := ⟨fun _ => 1, fun _ => 1⟩

/-- What a worker that lacks items sends to the other one. -/
def wakeUp : Side → SchedulerMessage
  | .upstream => .action .notifyInput
  | .downstream => .action .notifyOutput

section Still

variable {opts : Side → SchedulerTritonOptions} {links : Links} {p p' : Pair} {g : Group}
  {taken : List (Transition.Taken Pair Turn)} {s : ExecutorIterationStatus} {events : List Event}

/-- Workers whose iterations leave their groups as they are see the same all along. -/
theorem still_of_run (run : Transition.Run (Step opts links) p taken p')
    (start : ∀ side, (p.worker side).group = g)
    (answered : ∀ t ∈ taken, t.label.answers = lackingItems)
    (fixed : GraphExecutor.runOneIteration lackingItems g = .ok ⟨s, g, events⟩) :
    ∀ t ∈ taken, groupOf t = g ∧ Fruitless t := by
  have along := (run.invariant (fun p => ∀ side, (p.worker side).group = g) start ?_).2
  · intro t member
    have sees := (along t member).1 t.label.side
    refine ⟨sees, fun iteration runs => ?_⟩
    have returns := runs.returns
    rw [groupOf, sees, answered t member, fixed] at returns
    cases returns
    rw [groupOf, sees, answered t member]
    exact ⟨rfl, fun _ _ => ⟨rfl, rfl⟩⟩
  · intro t member step same
    obtain ⟨⟨w, calls⟩, moves, result⟩ := Option.map_eq_some_iff.mp step
    obtain ⟨_, runs⟩ := turn_eq_some moves
    have kept : w.group = g := by
      rcases runs with ⟨_, iteration, returns, after, _⟩ | ⟨_, after, _⟩
      · rw [same, answered t member, fixed] at returns
        cases returns
        exact after
      · exact after.trans (same _)
    intro side
    rw [← result]
    cases t.label.side with
    | upstream =>
        cases side with
        | upstream => exact kept
        | downstream => exact same .downstream
    | downstream =>
        cases side with
        | upstream => exact same .upstream
        | downstream => exact kept

/-- Turns of one worker up to its iteration. -/
theorem pass_of_follow {middle : Pair} {turn : Turn} {n : Nat}
    (drains : Transition.follow (next opts links) p (List.replicate n turn) = some middle)
    (due : (middle.worker turn.side).thread.aboutToIterate = true)
    (moves : next opts links middle turn = some p') :
    ∃ taken, Transition.Run (Step opts links) p taken p' ∧ (∀ t ∈ taken, t.label = turn) ∧
      1 ≤ taken.countP iterates := by
  obtain ⟨front, run, labels⟩ := Transition.Run.of_follow drains
  have run : Transition.Run (Step opts links) p front middle := run
  refine ⟨front ++ [⟨middle, turn, p'⟩], run.snoc moves, ?_, ?_⟩
  · refine List.forall_mem_append.mpr ⟨fun t member => ?_, fun t member => ?_⟩
    · have listed := List.mem_map_of_mem (f := Transition.Taken.label) member
      rw [labels] at listed
      exact List.eq_of_mem_replicate listed
    · cases List.mem_singleton.mp member
      rfl
  · rw [List.countP_append, List.countP_singleton, iterates, if_pos due]
    exact Nat.le_add_left _ _

end Still

/-- Without items, the notification leads to one iteration. -/
theorem idle_pair_rests : ∃ taken p',
    Transition.Run (Step (fun _ => {}) oneToOne) (adjacent 0 [wakeUp .downstream] [] [] []) taken
      p' ∧ taken.countP iterates = 1 ∧
      Quiesces (fun _ => {}) (adjacent 0 [wakeUp .downstream] [] [] []) taken := by
  have fixed : GraphExecutor.runOneIteration lackingItems (batchesOfEight 0) =
      .ok ⟨.blkdIn, batchesOfEight 0, []⟩ := rfl
  obtain ⟨taken, run, labels, once⟩ := @pass_of_follow (fun _ => {}) oneToOne
    (adjacent 0 [wakeUp .downstream] [] [] []) _ _ ⟨.upstream, lackingItems⟩ 7 rfl rfl rfl
  have still := still_of_run run (fun side => by cases side <;> rfl)
    (fun t member => by rw [labels t member]) fixed
  have rests : Quiesces (fun _ => {}) (adjacent 0 [wakeUp .downstream] [] [] []) taken := by
    refine (quiesces_iff run fun t member => (still t member).2).mpr
      fun t member iteration runs ready => ?_
    rw [(still t member).1, labels t member] at ready
    have empty := ready.1 0 _ rfl
    cases empty
  exact ⟨taken, _, run, Nat.le_antisymm rests.finite once, rests⟩

/-- The calls of an iteration of a worker that lacks items. -/
def lackingCalls : List Event :=
  GraphExecutor.eventsOf (GraphExecutor.runOneIteration lackingItems (batchesOfEight 4))

private theorem lacking_iteration : GraphExecutor.runOneIteration lackingItems (batchesOfEight 4) =
    .ok ⟨.blkdIn, batchesOfEight 4, lackingCalls⟩ := by
  have returns : GraphExecutor.runOneIteration lackingItems (batchesOfEight 4) =
      .ok ⟨.blkdIn, { (batchesOfEight 4) with
        buffers := GraphExecutor.postWrites 0 [1] (batchesOfEight 4).buffers }, lackingCalls⟩ := rfl
  rw [GraphExecutor.postWrites_zero] at returns
  exact returns

private theorem next_of_lacking {p : Pair} {side : Side} {thread : ThreadWrapper.State}
    (due : (p.worker side).thread.aboutToIterate = true)
    (sees : (p.worker side).group = batchesOfEight 4)
    (steps : ThreadWrapper.threadBody {} (p.worker side).thread .blkdIn = some thread) :
    next (fun _ => {}) oneToOne p ⟨side, lackingItems⟩ =
      some ((p.replace ⟨thread, batchesOfEight 4⟩ side).replace
        (((p.replace ⟨thread, batchesOfEight 4⟩ side).worker side.other).receive [wakeUp side])
        side.other) := by
  have sent : lackingCalls.flatMap (oneToOne.messages side) = [wakeUp side] := by
    cases side <;> rfl
  rw [next, Worker.turn, if_pos due, sees, lacking_iteration]
  simp only [steps, Option.map_some, sent]

/-- The records of a pass that is woken by a message and lacks items. -/
def passed (msg : SchedulerMessage) (log : List ThreadWrapper.Record) :
    List ThreadWrapper.Record :=
  .iterated .blkdIn [] :: .handled msg [] :: log

/-- The workers take turns waking each other. -/
theorem round_of_adjacent (first second : List ThreadWrapper.Record) :
    ∃ taken, Transition.Run (Step (fun _ => {}) oneToOne)
      (adjacent 4 [wakeUp .downstream] [] first second) taken
      (adjacent 4 [wakeUp .downstream] [] (passed (wakeUp .downstream) first)
        (passed (wakeUp .upstream) second)) ∧
      (∀ t ∈ taken, t.label.answers = lackingItems) ∧ 1 ≤ taken.countP iterates := by
  obtain ⟨front, toMiddle, asked, once⟩ := @pass_of_follow (fun _ => {}) oneToOne
    (adjacent 4 [wakeUp .downstream] [] first second)
    (adjacent 4 [] [wakeUp .upstream] (passed (wakeUp .downstream) first) second) _
    ⟨.upstream, lackingItems⟩ 7 rfl rfl (@next_of_lacking _ .upstream
      (between [] (passed (wakeUp .downstream) first)) rfl rfl rfl)
  obtain ⟨back, toEnd, answered, _⟩ := @pass_of_follow (fun _ => {}) oneToOne
    (adjacent 4 [] [wakeUp .upstream] (passed (wakeUp .downstream) first) second)
    (adjacent 4 [wakeUp .downstream] [] (passed (wakeUp .downstream) first)
      (passed (wakeUp .upstream) second)) _
    ⟨.downstream, lackingItems⟩ 7 rfl rfl (@next_of_lacking _ .downstream
      (between [] (passed (wakeUp .upstream) second)) rfl rfl rfl)
  refine ⟨front ++ back, toMiddle.append toEnd, ?_, ?_⟩
  · refine List.forall_mem_append.mpr ⟨fun t member => ?_, fun t member => ?_⟩
    · rw [asked t member]
    · rw [answered t member]
  · rw [List.countP_append]
    omega

private theorem rounds_of_adjacent (n : Nat) (first second : List ThreadWrapper.Record) :
    ∃ first' second' taken, Transition.Run (Step (fun _ => {}) oneToOne)
      (adjacent 4 [wakeUp .downstream] [] first second) taken
      (adjacent 4 [wakeUp .downstream] [] first' second') ∧
      (∀ t ∈ taken, t.label.answers = lackingItems) ∧ n ≤ taken.countP iterates := by
  induction n generalizing first second with
  | zero =>
      exact ⟨_, _, [], .nil _, fun t absurd => (List.not_mem_nil absurd).elim, Nat.zero_le _⟩
  | succ n ih =>
      obtain ⟨front, one, asked, once⟩ := round_of_adjacent first second
      obtain ⟨_, _, back, others, answered, more⟩ := ih (passed (wakeUp .downstream) first)
        (passed (wakeUp .upstream) second)
      refine ⟨_, _, front ++ back, one.append others,
        List.forall_mem_append.mpr ⟨asked, answered⟩, ?_⟩
      rw [List.countP_append]
      omega

/-- With four items each, which are no batch, one notification leads to iterations
without end: no bound holds for all runs. -/
theorem partial_batches_never_rest :
    ¬ ∃ bound, ∀ taken p', Transition.Run (Step (fun _ => {}) oneToOne)
      (adjacent 4 [wakeUp .downstream] [] [] []) taken p' → (∀ t ∈ taken, Fruitless t) →
        taken.countP iterates ≤ bound := by
  rintro ⟨bound, bounds⟩
  obtain ⟨_, _, taken, run, answered, more⟩ := rounds_of_adjacent (bound + 1) [] []
  have still := still_of_run run (fun side => by cases side <;> rfl) answered lacking_iteration
  have few := bounds taken _ run fun t member => (still t member).2
  omega

end Pair

end TorchDsp
