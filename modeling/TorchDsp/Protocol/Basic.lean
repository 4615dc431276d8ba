import TorchDsp.Foundation.Run
import TorchDsp.Triton.Outcome

/-! # The callback protocol

The executor, the inference server and the client threads that make callbacks,
step by step. Every turn of the last block's inner loop is a pass with a mutex, a
flag and a condition variable of its own. The callback of a pass locks the
mutex, sets the flag, unlocks and notifies; the executor waits for the flag.
Each model owns its client, so the server may take the requests in flight in any
order.
-/

namespace TorchDsp

namespace Protocol

/-- How far an accepted request is: the server queues, executes and completes it,
then a client thread makes its callback. -/
inductive RequestStage
  | queued
  | executing
  | completed
  | locked
  | assigned
  | unlocked
  | finished
  deriving DecidableEq, Repr

/-- Whether the server is done with the request. -/
def RequestStage.done : RequestStage → Bool
  | .queued | .executing => false
  | _ => true

/-- Whether the callback has set the flag of its pass. -/
def RequestStage.hasSet : RequestStage → Bool
  | .assigned | .unlocked | .finished => true
  | _ => false

/-- A request that the client has accepted. -/
structure Submission where
  /-- The position of the block that submitted it. -/
  position : Nat
  iteration : Nat
  callback : Callback
  stage : RequestStage := .queued
  deriving DecidableEq, Repr

/-- Where the executor is. -/
inductive Pc
  /-- Between two iterations. -/
  | gate
  /-- Before the block at a position. -/
  | run (position : Nat)
  /-- About to lock the mutex of the pass. -/
  | acquire
  /-- About to test the flag, holding the mutex. -/
  | test
  /-- Asleep on the condition variable. -/
  | sleep
  /-- Before the commit phase. -/
  | commit
  deriving DecidableEq, Repr

inductive Holder
  | executor
  | callback (index : Nat)
  deriving DecidableEq, Repr

/-- A group whose last block is a triton block, with its executor and its
requests. The front holds the blocks before the last one, `none` for a block of
another kind; hierarchical blocks are left out. -/
structure State where
  front : List (Option TritonBlock)
  last : TritonBlock
  pc : Pc := .gate
  iteration : Nat := 0
  /-- The number of passes so far; it names the current one. -/
  pass : Nat := 0
  /-- The flag of the current pass. -/
  ready : Bool := false
  /-- Who holds the mutex of the current pass. -/
  holder : Option Holder := none
  /-- The accepted requests, in the order of submission. -/
  submissions : List Submission := []

namespace State

/-- The executor is at the wait of its pass, whose objects exist. -/
def waiting (s : State) : Bool :=
  match s.pc with
  | .acquire | .test | .sleep => true
  | _ => false

/-- The executor is before the last block. -/
def atLast (s : State) : Bool :=
  match s.pc with
  | .run p => s.front[p]? = none
  | _ => false

/-- Whether the objects of a pass exist. -/
def alive (s : State) (pass : Nat) : Bool :=
  s.waiting && pass == s.pass

/-- The requests after a call of `work` by the block at a position. -/
def submit (s : State) (position : Nat) (result : WorkResult) : List Submission :=
  s.submissions ++
    if result.calledBack then
      [{ position, iteration := s.iteration, callback := result.request.callback.getD .nothing }]
    else []

/-- `do_work` of a triton block before the last one. -/
def callFront (s : State) (position : Nat) (b : TritonBlock) (inference : Inference) :
    Option State :=
  (b.work inference.inBufs inference.outBufs inference.noutputItems inference.outcome).map
    fun result =>
      { s with
        front := s.front.set position (some result.block)
        pc := .run (position + 1)
        submissions := s.submit position result }

/-- The last block with the callback of a new pass. -/
def installed (s : State) : TritonBlock :=
  s.last.setAsyncCallback (.pass (s.pass + 1))

/-- A pass in which `do_work` of the last block calls `work`. It returns `OK`,
so the executor goes on to wait. -/
def callLast (s : State) (inference : Inference) : Option State :=
  (s.installed.work inference.inBufs inference.outBufs inference.noutputItems
    inference.outcome).map fun result =>
      { s with
        last := result.block
        pc := .acquire
        pass := s.pass + 1
        ready := false
        holder := none
        submissions := s.submit s.front.length result }

/-- A pass in which `do_work` of the last block lacks items. -/
def refuseLast (s : State) : State :=
  { s with last := s.installed, pc := .commit, pass := s.pass + 1, ready := false, holder := none }

/-- Move the request at an index on. -/
def advance (s : State) (index : Nat) (q : Submission) (stage : RequestStage) : State :=
  { s with submissions := s.submissions.set index { q with stage } }

/-- One step of a client thread in the callback of a request. On a pass that has
been left the callback finds no mutex to wait for and no flag to set. -/
def callbackNext (s : State) (index : Nat) (q : Submission) : Option State :=
  match q.callback, q.stage with
  | .nothing, .completed => some (s.advance index q .finished)
  | .pass n, .completed =>
      if s.alive n then
        if s.holder = none then
          some { s.advance index q .locked with holder := some (.callback index) }
        else none
      else some (s.advance index q .locked)
  | .pass n, .locked => some { s.advance index q .assigned with ready := s.ready || s.alive n }
  | .pass n, .assigned =>
      some { s.advance index q .unlocked with holder := if s.alive n then none else s.holder }
  | .pass _, .unlocked => some (s.advance index q .finished)
  | _, _ => none

end State

inductive Move
  /-- An iteration passes its checks and enters the do_work loop. -/
  | begin
  /-- The inner loop of a block of another kind ends. -/
  | passOver
  /-- `do_work` of a triton block lacks items. -/
  | refuse
  /-- `do_work` of a triton block calls `work`. -/
  | infer (inference : Inference)
  | acquire
  | test
  /-- The executor wakes up, notified or not. -/
  | wake
  /-- The commit phase. -/
  | post
  | execute (index : Nat)
  | complete (index : Nat)
  | callback (index : Nat)

open State in
/-- One move of the executor, the server or a client thread. -/
def next (s : State) : Move → Option State
  | .begin =>
      if s.pc = .gate then some { s with pc := .run 0, iteration := s.iteration + 1 } else none
  | .passOver =>
      match s.pc with
      | .run p => if s.front[p]? = some none then some { s with pc := .run (p + 1) } else none
      | _ => none
  | .refuse =>
      match s.pc with
      | .run p =>
          match s.front[p]? with
          | some none => none
          | some (some _) => some s
          | none => some s.refuseLast
      | _ => none
  | .infer inference =>
      match s.pc with
      | .run p =>
          match s.front[p]? with
          | some none => none
          | some (some b) => s.callFront p b inference
          | none => s.callLast inference
      | _ => none
  | .acquire =>
      if s.pc = .acquire ∧ s.holder = none then
        some { s with pc := .test, holder := some .executor }
      else none
  | .test =>
      if s.pc = .test then
        some { s with pc := if s.ready then .commit else .sleep, holder := none }
      else none
  | .wake => if s.pc = .sleep then some { s with pc := .acquire } else none
  | .post => if s.pc = .commit then some { s with pc := .gate } else none
  | .execute index =>
      match s.submissions[index]? with
      | some q => if q.stage = .queued then some (s.advance index q .executing) else none
      | none => none
  | .complete index =>
      match s.submissions[index]? with
      | some q => if q.stage = .executing then some (s.advance index q .completed) else none
      | none => none
  | .callback index =>
      match s.submissions[index]? with
      | some q => s.callbackNext index q
      | none => none

def Step (s : State) (move : Move) (s' : State) : Prop :=
  next s move = some s'

/-- A call before the last block is one of `callFront`. -/
theorem next_infer_of_front {s : State} {p : Nat} {b : TritonBlock} (inference : Inference)
    (pc : s.pc = .run p) (present : s.front[p]? = some (some b)) :
    next s (.infer inference) = s.callFront p b inference := by
  simp only [next, pc, present]

/-- A call of the last block is one of `callLast`. -/
theorem next_infer_of_atLast {s : State} (inference : Inference) (atLast : s.atLast = true) :
    next s (.infer inference) = s.callLast inference := by
  unfold State.atLast at atLast
  split at atLast
  · rename_i p here
    simp only [next, here, of_decide_eq_true atLast]
  · cases atLast

/-- Blocks as they are constructed, before the first iteration. The callbacks do
nothing yet. -/
structure Initial (s : State) : Prop where
  callbacks : ∀ b, some b ∈ s.front → b.callback = .nothing
  pc : s.pc = .gate
  submissions : s.submissions = []

namespace State

/-! ## Calls -/

/-- The request a call of `work` adds, when the client takes it on. -/
def submission (s : State) (position : Nat) (b : TritonBlock) (inference : Inference) :
    List Submission :=
  if b.model.async && inference.outcome ≠ .callError then
    [{ position, iteration := s.iteration, callback := b.callback }]
  else []

/-- An asynchronous call that the client takes on adds one request, with the callback of its
block. -/
theorem submission_of_accepted (s : State) (position : Nat) {b : TritonBlock}
    {inference : Inference} (async : b.model.async = true)
    (accepted : inference.outcome ≠ .callError) :
    s.submission position b inference =
      [{ position, iteration := s.iteration, callback := b.callback }] := by
  apply if_pos
  rw [Bool.and_eq_true, decide_eq_true_eq]
  exact ⟨async, accepted⟩

/-- A request carries the callback of its block. -/
theorem callback_of_mem_submission {s : State} {position : Nat} {b : TritonBlock}
    {inference : Inference} {q : Submission} (member : q ∈ s.submission position b inference) :
    q.callback = b.callback := by
  unfold submission at member
  split at member
  · cases List.mem_singleton.mp member
    rfl
  · cases member

/-- A call of `work` adds its request and leaves the callback of the block. -/
theorem submit_of_work {s : State} {position : Nat} {b : TritonBlock} {inference : Inference}
    {result : WorkResult}
    (worked : b.work inference.inBufs inference.outBufs inference.noutputItems
      inference.outcome = some result) :
    s.submit position result = s.submissions ++ s.submission position b inference ∧
      result.block.callback = b.callback := by
  obtain ⟨_, _, _, _, _, _, _, _, _, rfl⟩ := TritonBlock.work_eq_some worked
  refine ⟨?_, rfl⟩
  unfold submit submission
  cases b.model.async <;> rfl

/-- What a call of `do_work` before the last block leaves. -/
theorem callFront_spec {s s' : State} {p : Nat} {b : TritonBlock} {inference : Inference}
    (calls : s.callFront p b inference = some s') :
    ∃ after, s' = { s with
      front := s.front.set p (some after)
      pc := .run (p + 1)
      submissions := s.submissions ++ s.submission p b inference } ∧
      after.callback = b.callback := by
  obtain ⟨result, worked, rfl⟩ := Option.map_eq_some_iff.mp calls
  obtain ⟨added, callback⟩ := @submit_of_work s p _ _ _ worked
  exact ⟨result.block, by rw [added], callback⟩

/-- What a call of `do_work` of the last block leaves. -/
theorem callLast_spec {s s' : State} {inference : Inference}
    (calls : s.callLast inference = some s') :
    ∃ after, s' = { s with
      last := after
      pc := .acquire
      pass := s.pass + 1
      ready := false
      holder := none
      submissions := s.submissions ++ s.submission s.front.length s.installed inference } := by
  obtain ⟨result, worked, rfl⟩ := Option.map_eq_some_iff.mp calls
  obtain ⟨added, _⟩ := @submit_of_work s s.front.length _ _ _ worked
  exact ⟨result.block, by rw [added]⟩

end State

/-! ## What a step can do -/

/-- A move with its guard and the state it leads to. -/
inductive Transits (s : State) : Move → State → Prop
  | begin (here : s.pc = .gate) :
      Transits s .begin { s with pc := .run 0, iteration := s.iteration + 1 }
  | passOver {p : Nat} (here : s.pc = .run p) : Transits s .passOver { s with pc := .run (p + 1) }
  | refuseFront {p : Nat} (here : s.pc = .run p) : Transits s .refuse s
  | refuseLast {p : Nat} (here : s.pc = .run p) : Transits s .refuse s.refuseLast
  | inferFront {p : Nat} {b : TritonBlock} {inference : Inference} {s' : State}
      (here : s.pc = .run p) (present : s.front[p]? = some (some b))
      (calls : s.callFront p b inference = some s') : Transits s (.infer inference) s'
  | inferLast {p : Nat} {inference : Inference} {s' : State} (here : s.pc = .run p)
      (atLast : s.atLast = true) (calls : s.callLast inference = some s') :
      Transits s (.infer inference) s'
  | acquire (here : s.pc = .acquire) (free : s.holder = none) :
      Transits s .acquire { s with pc := .test, holder := some .executor }
  | asleep (here : s.pc = .test) (unset : s.ready = false) :
      Transits s .test { s with pc := .sleep, holder := none }
  | passes (here : s.pc = .test) (set : s.ready = true) :
      Transits s .test { s with pc := .commit, holder := none }
  | wake (here : s.pc = .sleep) : Transits s .wake { s with pc := .acquire }
  | post (here : s.pc = .commit) : Transits s .post { s with pc := .gate }
  | execute {index : Nat} {q : Submission} (present : s.submissions[index]? = some q)
      (queued : q.stage = .queued) : Transits s (.execute index) (s.advance index q .executing)
  | complete {index : Nat} {q : Submission} (present : s.submissions[index]? = some q)
      (executing : q.stage = .executing) :
      Transits s (.complete index) (s.advance index q .completed)
  | callback {index : Nat} {q : Submission} {s' : State}
      (present : s.submissions[index]? = some q) (calls : s.callbackNext index q = some s') :
      Transits s (.callback index) s'

/-- Every step is a move whose guard holds. -/
theorem transits_of_step {s s' : State} {move : Move} (step : Step s move s') :
    Transits s move s' := by
  unfold Step next at step
  cases move with
  | begin =>
      obtain ⟨here, same⟩ := Option.ite_none_right_eq_some.mp step
      cases same
      exact .begin here
  | passOver =>
      simp only at step
      split at step
      · rename_i p here
        obtain ⟨_, same⟩ := Option.ite_none_right_eq_some.mp step
        cases same
        exact .passOver here
      · cases step
  | refuse =>
      simp only at step
      split at step
      · rename_i p here
        split at step <;> cases step
        · exact .refuseFront here
        · exact .refuseLast here
      · cases step
  | infer inference =>
      simp only at step
      split at step
      · rename_i p here
        split at step
        · cases step
        · rename_i b present
          exact .inferFront here present step
        · rename_i beyond
          refine .inferLast here ?_ step
          rw [State.atLast, here]
          exact decide_eq_true beyond
      · cases step
  | acquire =>
      obtain ⟨⟨here, free⟩, same⟩ := Option.ite_none_right_eq_some.mp step
      cases same
      exact .acquire here free
  | test =>
      obtain ⟨here, same⟩ := Option.ite_none_right_eq_some.mp step
      cases same
      by_cases set : s.ready = true
      · rw [if_pos set]
        exact .passes here set
      · rw [if_neg set]
        exact .asleep here (Bool.eq_false_iff.mpr set)
  | wake =>
      obtain ⟨here, same⟩ := Option.ite_none_right_eq_some.mp step
      cases same
      exact .wake here
  | post =>
      obtain ⟨here, same⟩ := Option.ite_none_right_eq_some.mp step
      cases same
      exact .post here
  | execute index =>
      simp only at step
      split at step
      · rename_i q present
        obtain ⟨queued, same⟩ := Option.ite_none_right_eq_some.mp step
        cases same
        exact .execute present queued
      · cases step
  | complete index =>
      simp only at step
      split at step
      · rename_i q present
        obtain ⟨executing, same⟩ := Option.ite_none_right_eq_some.mp step
        cases same
        exact .complete present executing
      · cases step
  | callback index =>
      simp only at step
      split at step
      · rename_i q present
        exact .callback present step
      · cases step

/-- The step of a client thread in a callback, on a pass that exists or on one that
has been left. -/
inductive State.CallbackStep (s : State) (index : Nat) (q : Submission) : State → Prop
  | nothing (callback : q.callback = .nothing) (stage : q.stage = .completed) :
      CallbackStep s index q (s.advance index q .finished)
  | locks {n : Nat} (callback : q.callback = .pass n) (stage : q.stage = .completed)
      (alive : s.alive n = true) (free : s.holder = none) :
      CallbackStep s index q { s.advance index q .locked with holder := some (.callback index) }
  | assigns {n : Nat} (callback : q.callback = .pass n) (stage : q.stage = .locked) :
      CallbackStep s index q { s.advance index q .assigned with ready := s.ready || s.alive n }
  | unlocks {n : Nat} (callback : q.callback = .pass n) (stage : q.stage = .assigned) :
      CallbackStep s index q
        { s.advance index q .unlocked with holder := if s.alive n then none else s.holder }
  | notifies {n : Nat} (callback : q.callback = .pass n) (stage : q.stage = .unlocked) :
      CallbackStep s index q (s.advance index q .finished)
  | strays {n : Nat} (callback : q.callback = .pass n) (stage : q.stage = .completed)
      (left : s.alive n = false) : CallbackStep s index q (s.advance index q .locked)

/-- Every step of a callback is that of a pass that exists or of one that has been left. -/
theorem State.callbackStep_of_next {s s' : State} {index : Nat} {q : Submission}
    (calls : s.callbackNext index q = some s') : CallbackStep s index q s' := by
  unfold callbackNext at calls
  split at calls
  · rename_i callback stage
    cases calls
    exact .nothing callback stage
  · rename_i n callback stage
    by_cases alive : s.alive n = true
    · rw [if_pos alive] at calls
      obtain ⟨free, same⟩ := Option.ite_none_right_eq_some.mp calls
      cases same
      exact .locks callback stage alive free
    · rw [if_neg alive] at calls
      cases calls
      exact .strays callback stage (Bool.eq_false_iff.mpr alive)
  · rename_i n callback stage
    cases calls
    exact .assigns callback stage
  · rename_i n callback stage
    cases calls
    exact .unlocks callback stage
  · rename_i n callback stage
    cases calls
    exact .notifies callback stage
  · cases calls

/-- The effect of a step on the passes and the requests. -/
inductive Effect (s : State) (move : Move) (s' : State) : Prop
  /-- The executor moves on; it leaves its wait only when the flag is set. -/
  | moved (front : s'.front = s.front) (pass : s'.pass = s.pass) (ready : s'.ready = s.ready)
      (submissions : s'.submissions = s.submissions)
      (waiting : s'.waiting = true → s.waiting = true)
      (stays : s.waiting = true → s.ready = false → s'.waiting = true)
  | refused (running : s.waiting = false) (same : s' = s.refuseLast)
  | calledFront (running : s.waiting = false) (p : Nat) (b : TritonBlock) (inference : Inference)
      (present : s.front[p]? = some (some b)) (calls : s.callFront p b inference = some s')
  | calledLast (running : s.waiting = false) (inference : Inference)
      (label : move = .infer inference) (atLast : s.atLast = true)
      (calls : s.callLast inference = some s')
  /-- A request moves on; only a callback of the current pass can set its flag. -/
  | advanced (index : Nat) (q : Submission) (stage : RequestStage)
      (present : s.submissions[index]? = some q) (front : s'.front = s.front)
      (pass : s'.pass = s.pass) (waiting : s'.waiting = s.waiting)
      (submissions : s'.submissions = s.submissions.set index { q with stage })
      (foreign : q.callback ≠ .pass s.pass → s'.ready = s.ready)
      (own : q.callback = .pass s.pass → s.waiting = true → s.ready = q.stage.hasSet →
        s'.ready = stage.hasSet)

/-- The pass of a callback exists while the executor waits in it. -/
theorem State.alive_of_callback {s : State} {q : Submission} {n : Nat}
    (callback : q.callback = .pass n) :
    s.alive n = true ↔ s.waiting = true ∧ q.callback = .pass s.pass := by
  rw [State.alive, Bool.and_eq_true, beq_iff_eq, callback, Callback.pass.injEq]

private theorem effect_of_callback {s s' : State} {move : Move} {index : Nat} {q : Submission}
    (present : s.submissions[index]? = some q) (calls : s.callbackNext index q = some s') :
    Effect s move s' := by
  -- Steps other than the assignment leave the flag of every pass as it is.
  have keeps {stage : RequestStage} {holder : Option Holder}
      (same : stage.hasSet = q.stage.hasSet ∨ q.callback = .nothing) :
      Effect s move { s.advance index q stage with holder := holder } := by
    refine .advanced index q stage present rfl rfl rfl rfl (fun _ => rfl) fun own _ flag => ?_
    rcases same with same | nothing
    · exact flag.trans same.symm
    · rw [nothing] at own
      cases own
  cases State.callbackStep_of_next calls with
  | nothing callback stage => exact keeps (Or.inr callback)
  | locks callback stage alive free => exact keeps (Or.inl (by rw [stage]; rfl))
  | @assigns n callback stage =>
      refine .advanced index q .assigned present rfl rfl rfl rfl (fun foreign => ?_)
        fun own here _ => ?_
      · have gone : s.alive n = false := by
          rw [← Bool.not_eq_true, State.alive_of_callback callback]
          exact fun alive => foreign alive.2
        change (s.ready || s.alive n) = s.ready
        rw [gone, Bool.or_false]
      · change (s.ready || s.alive n) = true
        rw [(State.alive_of_callback callback).mpr ⟨here, own⟩, Bool.or_true]
  | unlocks callback stage => exact keeps (Or.inl (by rw [stage]; rfl))
  | notifies callback stage => exact keeps (Or.inl (by rw [stage]; rfl))
  | strays callback stage left => exact keeps (Or.inl (by rw [stage]; rfl))

/-- **What a step can do.** -/
theorem effect_of_step {s s' : State} {move : Move} (step : Step s move s') : Effect s move s' := by
  have running {p : Nat} (here : s.pc = .run p) : s.waiting = false := by rw [State.waiting, here]
  -- The executor moves between two points outside its wait, or between two points inside it.
  have outside {pc : Pc} {iteration : Nat} (before : s.waiting = false)
      (after : ({ s with pc } : State).waiting = false) :
      Effect s move { s with pc, iteration } := by
    refine .moved rfl rfl rfl rfl (fun absurd => ?_) fun absurd => ?_
    · exact (Bool.false_ne_true (after.symm.trans absurd)).elim
    · exact (Bool.false_ne_true (before.symm.trans absurd)).elim
  have inside {pc : Pc} {holder : Option Holder} (before : s.waiting = true)
      (after : s.ready = false → ({ s with pc } : State).waiting = true) :
      Effect s move { s with pc, holder } :=
    .moved rfl rfl rfl rfl (fun _ => before) fun _ => after
  have advances {index : Nat} {q : Submission} {stage : RequestStage}
      (present : s.submissions[index]? = some q) (same : stage.hasSet = q.stage.hasSet) :
      Effect s move (s.advance index q stage) :=
    .advanced index q stage present rfl rfl rfl rfl (fun _ => rfl) fun _ _ flag =>
      flag.trans same.symm
  cases transits_of_step step with
  | begin here => exact outside (by rw [State.waiting, here]) rfl
  | passOver here => exact outside (running here) rfl
  | refuseFront here => exact .moved rfl rfl rfl rfl id fun waiting _ => waiting
  | refuseLast here => exact .refused (running here) rfl
  | inferFront here present calls => exact .calledFront (running here) _ _ _ present calls
  | inferLast here atLast calls => exact .calledLast (running here) _ rfl atLast calls
  | acquire here => exact inside (by rw [State.waiting, here]) fun _ => rfl
  | asleep here => exact inside (by rw [State.waiting, here]) fun _ => rfl
  | passes here set =>
      refine inside (by rw [State.waiting, here]) fun unset => ?_
      rw [set] at unset
      cases unset
  | wake here => exact inside (by rw [State.waiting, here]) fun _ => rfl
  | post here => exact outside (by rw [State.waiting, here]) rfl
  | execute present queued => exact advances present (by rw [queued]; rfl)
  | complete present executing => exact advances present (by rw [executing]; rfl)
  | callback present calls => exact effect_of_callback present calls

end Protocol

end TorchDsp
