import Mathlib.Data.List.FinRange
import TorchDsp.Executor.Interleaving
import TorchDsp.Executor.PhaseEffects
import TorchDsp.Wrapper.Budget

/-! # Schedulers that share buffers

A flowgraph is cut into groups of blocks, each with a scheduler of its own. The
schedulers run side by side: a thread takes its steps, and the iteration inside
it its phases, while the others take theirs. They meet in the buffers, which one
group writes and others read, and in the messages that they push into each
other's queues. The executor of a scheduler sees the flowgraph as a group
between neighbours (`TorchDsp.Flowgraph.group`).
-/

namespace TorchDsp

open GraphExecutor ThreadWrapper

/-- A scheduler: its thread, its blocks and the iteration that its thread is in. -/
structure Scheduler (n : Nat) where
  thread : ThreadWrapper.State
  blocks : List Block
  point : Point := .start
  /-- The messages of the latest phase that are not yet in their queues. -/
  sending : List (Fin n × SchedulerMessage) := []

/-- The schedulers that own the ports connected to a port. -/
structure Wiring (n : Nat) where
  /-- For each output port of the last block of a scheduler. -/
  readers : Fin n → Nat → List (Fin n)
  /-- For each input port of the first block of a scheduler. -/
  writers : Fin n → Nat → List (Fin n)

/-- What `notify_scheduler_action` pushes to the schedulers of the flowgraph. -/
def Wiring.messages {n : Nat} (wiring : Wiring n) (u : Fin n) :
    Event → List (Fin n × SchedulerMessage)
  | .notify _ port .notifyInput => (wiring.readers u port).map (·, .action .notifyInput)
  | .notify _ port .notifyOutput => (wiring.writers u port).map (·, .action .notifyOutput)
  | _ => []

/-- The calls that an iteration has made so far. -/
def GraphExecutor.Point.events : Point → List Event
  | .worked l | .released l | .published l => l.events
  | .returned _ events => events
  | _ => []

/-- The schedulers with the buffers between them. A buffer records the totals of
the readers that belong to no scheduler. -/
structure Flowgraph (n : Nat) where
  schedulers : Fin n → Scheduler n
  buffers : Nat → Buffer

/-- What happens next: a scheduler takes a step, or something outside does. -/
inductive Flowgraph.Act (n : Nat)
  | turn (u : Fin n) (answers : Answers)
  | push (u : Fin n) (msg : SchedulerMessage)
  | openGate (u : Fin n)
  | requestStop (u : Fin n)
  /-- A block without scheduler publishes `m` items into buffer `k`. -/
  | publish (k m : Nat)
  /-- The reader `i` of buffer `k` that belongs to no scheduler releases `m` items. -/
  | release (k i m : Nat)

namespace Flowgraph

variable {n : Nat}

/-- The readers of a buffer that the executor of `u` does not own. -/
def outsideReads (f : Flowgraph n) (u : Fin n) (k : Nat) : List Nat :=
  (((List.finRange n).filter (· ≠ u)).flatMap fun v => Block.readsOf (f.schedulers v).blocks k) ++
    (f.buffers k).outsideReads

/-- What the executor of `u` works on. -/
def group (f : Flowgraph n) (u : Fin n) : Group where
  blocks := (f.schedulers u).blocks
  buffers := fun k => { f.buffers k with outsideReads := f.outsideReads u k }

def setScheduler (f : Flowgraph n) (u : Fin n) (s : Scheduler n) : Flowgraph n :=
  { f with schedulers := Function.update f.schedulers u s }

def setThread (f : Flowgraph n) (u : Fin n) (thread : ThreadWrapper.State) : Flowgraph n :=
  f.setScheduler u { f.schedulers u with thread }

/-- The flowgraph after a phase of `u`: the executor changes its blocks, and of the
buffers the totals that its blocks have written. -/
def advance (f : Flowgraph n) (wiring : Wiring n) (u : Fin n) (g : Group) (point : Point) :
    Flowgraph n :=
  { f.setScheduler u { f.schedulers u with
      blocks := g.blocks, point
      sending := (point.events.drop (f.schedulers u).point.events.length).flatMap
        (wiring.messages u) } with
    buffers := fun k => { f.buffers k with totalWritten := (g.buffers k).totalWritten } }

/-- A step of the scheduler `u`. While its thread iterates, the messages of a phase
are pushed one by one before the next phase. -/
def turn (opts : Fin n → SchedulerTritonOptions) (wiring : Wiring n) (f : Flowgraph n) (u : Fin n)
    (answers : Answers) : Option (Flowgraph n) :=
  let s := f.schedulers u
  if s.thread.aboutToIterate then
    match s.sending with
    | (v, msg) :: rest =>
        let f := f.setScheduler u { s with sending := rest }
        (ThreadWrapper.next (opts v) (f.schedulers v).thread (.push msg)).map (f.setThread v)
    | [] =>
        match s.point with
        | .returned status _ =>
            (threadBody (opts u) s.thread status).map fun thread =>
              f.setScheduler u { s with thread, point := .start }
        | point =>
            match resume answers (f.group u) point with
            | .error _ => none
            | .ok (g, point) => some (f.advance wiring u g point)
  else (threadBody (opts u) s.thread .ready).map (f.setThread u)

/-- No scheduler writes the buffer. -/
def Foreign (f : Flowgraph n) (k : Nat) : Prop :=
  ∀ u, k ∉ outputBuffers (f.schedulers u).blocks

instance (f : Flowgraph n) (k : Nat) : Decidable (f.Foreign k) :=
  inferInstanceAs (Decidable (∀ u, k ∉ outputBuffers (f.schedulers u).blocks))

/-- The items of a buffer that its slowest reader has not released. -/
def itemsHeld (f : Flowgraph n) (k : Nat) : Nat :=
  (f.buffers k).totalWritten - ((List.finRange n).flatMap (fun v =>
    Block.readsOf (f.schedulers v).blocks k) ++ (f.buffers k).outsideReads).foldr min
      (f.buffers k).totalWritten

def next (opts : Fin n → SchedulerTritonOptions) (wiring : Wiring n) (f : Flowgraph n) :
    Act n → Option (Flowgraph n)
  | .turn u answers => turn opts wiring f u answers
  | .push u msg =>
      (ThreadWrapper.next (opts u) (f.schedulers u).thread (.push msg)).map (f.setThread u)
  | .openGate u =>
      (ThreadWrapper.next (opts u) (f.schedulers u).thread .openGate).map (f.setThread u)
  | .requestStop u =>
      (ThreadWrapper.next (opts u) (f.schedulers u).thread .requestStop).map (f.setThread u)
  | .publish k m =>
      if f.Foreign k ∧ f.itemsHeld k + m ≤ (f.buffers k).bufSize then
        some { f with buffers := Function.update f.buffers k (postWrite m (f.buffers k)) }
      else none
  | .release k i m =>
      match (f.buffers k).outsideReads[i]? with
      | none => none
      | some total =>
          if total + m ≤ (f.buffers k).totalWritten then
            some { f with
              buffers := Function.update f.buffers k
                (Interleaving.releaseOutside i m (f.buffers k)) }
          else none

def Step (opts : Fin n → SchedulerTritonOptions) (wiring : Wiring n) (f : Flowgraph n)
    (act : Act n) (f' : Flowgraph n) : Prop :=
  next opts wiring f act = some f'

/-! ## What a step does -/

/-- The steps of a flowgraph. -/
inductive Moved (opts : Fin n → SchedulerTritonOptions) (wiring : Wiring n) (f : Flowgraph n) :
    Act n → Flowgraph n → Prop
  /-- A notification arrives. -/
  | deliver (u : Fin n) (answers : Answers)
      (iterates : (f.schedulers u).thread.aboutToIterate = true) (v : Fin n)
      (msg : SchedulerMessage) (rest : List (Fin n × SchedulerMessage))
      (sends : (f.schedulers u).sending = (v, msg) :: rest) (f' : Flowgraph n)
      (popped : f' = f.setScheduler u { f.schedulers u with sending := rest })
      (thread : ThreadWrapper.State)
      (arrives : ThreadWrapper.Step (opts v) (f'.schedulers v).thread (.push msg) thread) :
      Moved opts wiring f (.turn u answers) (f'.setThread v thread)
  /-- The iteration of `u` has returned. -/
  | finish (u : Fin n) (answers : Answers)
      (iterates : (f.schedulers u).thread.aboutToIterate = true)
      (sent : (f.schedulers u).sending = []) (status : ExecutorIterationStatus)
      (events : List Event) (returned : (f.schedulers u).point = .returned status events)
      (thread : ThreadWrapper.State)
      (steps : ThreadWrapper.Step (opts u) (f.schedulers u).thread (.step status) thread) :
      Moved opts wiring f (.turn u answers)
        (f.setScheduler u { f.schedulers u with thread, point := .start })
  /-- The iteration of `u` takes its next phase. -/
  | phase (u : Fin n) (answers : Answers)
      (iterates : (f.schedulers u).thread.aboutToIterate = true)
      (sent : (f.schedulers u).sending = [])
      (inside : ∀ status events, (f.schedulers u).point ≠ .returned status events)
      (g : Group) (point : Point)
      (resumes : resume answers (f.group u) (f.schedulers u).point = .ok (g, point)) :
      Moved opts wiring f (.turn u answers) (f.advance wiring u g point)
  /-- The thread of `u` takes a step outside its iteration, or others act on it. -/
  | thread (u : Fin n) (act : Act n) (move : ThreadWrapper.Act) (thread : ThreadWrapper.State)
      (idle : ∀ status, move = .step status → (f.schedulers u).thread.aboutToIterate = false)
      (steps : ThreadWrapper.Step (opts u) (f.schedulers u).thread move thread) :
      Moved opts wiring f act (f.setThread u thread)
  /-- A block without scheduler changes a buffer. -/
  | outside (act : Act n) (k : Nat) (buffer : Buffer)
      (foreign : buffer.totalWritten ≠ (f.buffers k).totalWritten → f.Foreign k ∧
        f.itemsHeld k + (buffer.totalWritten - (f.buffers k).totalWritten) ≤
          (f.buffers k).bufSize)
      (grown : (f.buffers k).totalWritten ≤ buffer.totalWritten)
      (limits : buffer.bufSize = (f.buffers k).bufSize ∧
        buffer.maxBufferFill = (f.buffers k).maxBufferFill ∧
        buffer.minBufferFill = (f.buffers k).minBufferFill)
      (reads : List.Forall₂ (· ≤ ·) (f.buffers k).outsideReads buffer.outsideReads) :
      Moved opts wiring f act { f with buffers := Function.update f.buffers k buffer }

/-- Every act of a flowgraph is one of its steps. -/
theorem Step.moved {opts : Fin n → SchedulerTritonOptions} {wiring : Wiring n}
    {f f' : Flowgraph n} {act : Act n} (step : Step opts wiring f act f') :
    Moved opts wiring f act f' := by
  cases act with
  | turn u answers =>
      have turns : turn opts wiring f u answers = some f' := step
      unfold turn at turns
      dsimp only at turns
      split at turns
      · rename_i iterates
        split at turns
        · rename_i v msg rest sends
          obtain ⟨thread, arrives, same⟩ := Option.map_eq_some_iff.mp turns
          subst same
          exact .deliver u answers iterates v msg rest sends _ rfl thread arrives
        · rename_i sent
          split at turns
          · rename_i status events returned
            obtain ⟨thread, steps, same⟩ := Option.map_eq_some_iff.mp turns
            subst same
            exact .finish u answers iterates sent status events returned thread steps
          · rename_i inside
            split at turns
            · cases turns
            · rename_i g point resumes
              cases turns
              exact .phase u answers iterates sent inside g point resumes
      · rename_i idle
        obtain ⟨thread, steps, same⟩ := Option.map_eq_some_iff.mp turns
        subst same
        exact .thread u _ (.step .ready) thread (fun _ _ => Bool.eq_false_iff.mpr idle) steps
  | push u msg | openGate u | requestStop u =>
      simp only [Step, next] at step
      obtain ⟨thread, steps, same⟩ := Option.map_eq_some_iff.mp step
      subst same
      exact .thread u _ _ thread (fun _ absurd => by cases absurd) steps
  | publish k m =>
      simp only [Step, next] at step
      split at step <;> cases step
      rename_i room
      have added : (postWrite m (f.buffers k)).totalWritten - (f.buffers k).totalWritten = m :=
        Nat.add_sub_cancel_left ..
      exact .outside _ k _ (fun _ => ⟨room.1, added.symm ▸ room.2⟩) (Nat.le_add_right _ _)
        ⟨rfl, rfl, rfl⟩ (List.forall₂_refl _)
  | release k i m =>
      simp only [Step, next] at step
      split at step
      · cases step
      · split at step <;> cases step
        exact .outside _ k _ (fun changed => (changed rfl).elim) (Nat.le_refl _) ⟨rfl, rfl, rfl⟩
          (Interleaving.forall₂_modify _ i m)

end Flowgraph

end TorchDsp
