import TorchDsp.Foundation.Loop
import TorchDsp.Protocol.Basic

/-! # The requests of a chain

The blocks of a chain submit their requests one after the other, and the executor
waits for the callback of the last one only. Nothing else orders the server: at
every link of every chain the later request may be executed first, and the
commit phase may come while all requests but the last are queued
(`TorchDsp.Protocol.chain_unsequenced`).
-/

namespace TorchDsp

namespace Protocol

/-! ## The order that a chain needs -/

/-- The request of the block after `p` is executed only when the request of the
block at `p` in the same iteration is completed. -/
def ExecutesAfter (taken : List (Transition.Taken State Move)) (p : Nat) : Prop :=
  ∀ t ∈ taken, ∀ (index : Nat) (q : Submission), t.label = .execute index →
    t.source.submissions[index]? = some q → q.position = p + 1 →
      ∀ before ∈ t.source.submissions, before.iteration = q.iteration → before.position = p →
        before.stage.done = true

/-- The commit phase finds the request of the block at `p` completed. -/
def CommitsAfter (taken : List (Transition.Taken State Move)) (p : Nat) : Prop :=
  ∀ t ∈ taken, t.label = .post → ∀ q ∈ t.source.submissions,
    q.iteration = t.source.iteration → q.position = p → q.stage.done = true

/-- A chain of triton blocks before its first iteration. -/
def chain (front : List TritonBlock) (last : TritonBlock) : State where
  front := front.map some
  last := last

/-- An asynchronous block whose call of `work` returns and is taken on. -/
structure Submits (b : TritonBlock) (inference : Inference) : Prop where
  async : b.model.async = true
  works : (b.work inference.inBufs inference.outBufs inference.noutputItems
    inference.outcome).isSome = true
  accepted : inference.outcome ≠ .callError

/-- The one request that a call submits. -/
theorem Submits.submission {b : TritonBlock} {inference : Inference} (submits : Submits b inference)
    (s : State) (position : Nat) :
    s.submission position b inference =
      [{ position, iteration := s.iteration, callback := b.callback }] :=
  s.submission_of_accepted position submits.async submits.accepted

/-- The callback a block holds does not matter for its call of `work`. -/
theorem Submits.setAsyncCallback {b : TritonBlock} {inference : Inference}
    (submits : Submits b inference) (cb : Callback) :
    Submits (b.setAsyncCallback cb) inference := by
  refine ⟨submits.async, ?_, submits.accepted⟩
  rw [b.isSome_work_setAsyncCallback]
  exact submits.works

/-- The first `count` blocks of an iteration have submitted their requests, and
the server has not begun. -/
structure Queued (count : Nat) (s : State) : Prop where
  length : s.submissions.length = count
  iteration : s.iteration = 1
  each : ∀ (j : Nat) (q : Submission), s.submissions[j]? = some q →
    q.position = j ∧ q.iteration = 1 ∧ q.stage = .queued

/-- The executor is before the block at `count`, which is still as constructed. -/
structure Submitted (front : List TritonBlock) (last : TritonBlock) (count : Nat) (s : State) :
    Prop where
  queued : Queued count s
  pc : s.pc = .run count
  length : s.front.length = front.length
  same : ∀ j, count ≤ j → s.front[j]? = (front.map some)[j]?
  last : s.last = last

/-- The next block of the chain queues its request behind the others. -/
theorem Queued.submit {count : Nat} {s s' : State} {b : TritonBlock} {inference : Inference}
    (queued : Queued count s) (submits : Submits b inference)
    (iteration : s'.iteration = s.iteration)
    (submissions : s'.submissions = s.submissions ++ s.submission count b inference) :
    Queued (count + 1) s' := by
  rw [submits.submission] at submissions
  refine ⟨?_, iteration.trans queued.iteration, fun j q listed => ?_⟩
  · rw [submissions, List.length_append, List.length_singleton, queued.length]
  · rw [submissions] at listed
    rcases Nat.lt_or_ge j s.submissions.length with earlier | later
    · rw [List.getElem?_append_left earlier] at listed
      exact queued.each j q listed
    · have bound := (List.getElem?_eq_some_iff.mp listed).1
      rw [List.length_append, List.length_singleton] at bound
      have same : j = s.submissions.length := by omega
      subst same
      rw [List.getElem?_concat_length] at listed
      cases listed
      exact ⟨queued.length.symm, queued.iteration, rfl⟩

/-- The blocks before the last one submit their requests in order. -/
theorem exists_submitted {front : List TritonBlock} {last : TritonBlock}
    {inferences : List Inference} (submits : List.Forall₂ Submits front inferences) (count : Nat)
    (within : count ≤ front.length) :
    ∃ taken s, Transition.Run Step (chain front last) taken s ∧ Submitted front last count s := by
  induction count with
  | zero =>
      refine ⟨_, _, .single (show Step (chain front last) .begin _ from rfl), ⟨rfl, rfl, ?_⟩, rfl,
        List.length_map _, fun _ _ => rfl, rfl⟩
      intro j q listed
      cases listed
  | succ count ih =>
      obtain ⟨taken, s, run, submitted⟩ := ih (Nat.le_of_succ_le within)
      have listed : front[count]? = some front[count] := List.getElem?_eq_getElem within
      have bound : count < inferences.length := submits.length_eq ▸ within
      have able : Submits front[count] inferences[count] :=
        submits.getElem? listed (List.getElem?_eq_getElem bound)
      obtain ⟨result, worked⟩ := Option.isSome_iff_exists.mp able.works
      have here : s.front[count]? = some (some front[count]) := by
        rw [submitted.same count (Nat.le_refl _), List.getElem?_map, listed, Option.map_some]
      have step : Step s (.infer inferences[count]) { s with
          front := s.front.set count (some result.block)
          pc := .run (count + 1)
          submissions := s.submit count result } := by
        rw [Step, next_infer_of_front _ submitted.pc here, State.callFront, worked, Option.map_some]
      refine ⟨_, _, run.snoc step, ?_, rfl, ?_, fun j later => ?_, submitted.last⟩
      · exact submitted.queued.submit able rfl (State.submit_of_work worked).1
      · rw [List.length_set, submitted.length]
      · rw [← submitted.same j (Nat.le_of_succ_le later), List.getElem?_set_ne (by omega)]

/-- All blocks have submitted their requests, the server has not begun, and the
executor is about to wait for the last one. -/
structure Loaded (count : Nat) (s : State) : Prop where
  queued : Queued (count + 1) s
  pc : s.pc = .acquire
  ready : s.ready = false
  holder : s.holder = none
  last : ∀ q, s.submissions[count]? = some q → q.callback = .pass s.pass

private theorem exists_loaded {front : List TritonBlock} {last : TritonBlock}
    {inferences : List Inference} {inference : Inference}
    (submits : List.Forall₂ Submits front inferences) (able : Submits last inference) :
    ∃ taken s, Transition.Run Step (chain front last) taken s ∧ Loaded front.length s := by
  obtain ⟨taken, s, run, submitted⟩ := exists_submitted submits front.length (Nat.le_refl _)
  have installed : Submits s.installed inference := by
    rw [State.installed, submitted.last]
    exact able.setAsyncCallback _
  obtain ⟨result, worked⟩ := Option.isSome_iff_exists.mp installed.works
  have atLast : s.atLast = true := by
    have beyond : s.front[front.length]? = none :=
      List.getElem?_eq_none (Nat.le_of_eq submitted.length)
    rw [State.atLast, submitted.pc]
    exact decide_eq_true beyond
  have step : Step s (.infer inference) { s with
      last := result.block
      pc := .acquire
      pass := s.pass + 1
      ready := false
      holder := none
      submissions := s.submit s.front.length result } := by
    rw [Step, next_infer_of_atLast _ atLast, State.callLast, worked, Option.map_some]
  have added := (@State.submit_of_work s s.front.length _ _ _ worked).1
  rw [submitted.length] at added step
  refine ⟨_, _, run.snoc step, submitted.queued.submit installed rfl added, rfl, rfl, rfl, ?_⟩
  intro q listed
  have listed : (s.submit front.length result)[front.length]? = some q := listed
  rw [added, installed.submission, ← submitted.queued.length, List.getElem?_concat_length] at listed
  cases listed
  rfl

/-! ## The server takes its own order -/

private theorem exists_execution_before {front : List TritonBlock} {last : TritonBlock}
    {inferences : List Inference} {inference : Inference}
    (submits : List.Forall₂ Submits front inferences) (able : Submits last inference) {p : Nat}
    (inside : p < front.length) :
    ∃ taken s, Transition.Run Step (chain front last) taken s ∧ ¬ ExecutesAfter taken p := by
  obtain ⟨taken, s, run, loaded⟩ := exists_loaded submits able
  have bound : p + 1 < s.submissions.length := by rw [loaded.queued.length]; omega
  have next : s.submissions[p + 1]? = some s.submissions[p + 1] := List.getElem?_eq_getElem bound
  have before : s.submissions[p]? = some s.submissions[p] :=
    List.getElem?_eq_getElem (Nat.lt_of_succ_lt bound)
  obtain ⟨position, iteration, stage⟩ := loaded.queued.each _ _ next
  obtain ⟨position', iteration', stage'⟩ := loaded.queued.each _ _ before
  have step : Step s (.execute (p + 1)) (s.advance (p + 1) s.submissions[p + 1] .executing) := by
    simp only [Step, Protocol.next, next, stage, ↓reduceIte]
  refine ⟨_, _, run.snoc step, fun after => ?_⟩
  have done := after _ (List.mem_append_right _ List.mem_cons_self) (p + 1) _ rfl next position _
    (List.mem_of_getElem? before) (iteration'.trans iteration.symm) position'
  rw [stage'] at done
  cases done

/-- The state in which only the request of the current pass has moved on. -/
def State.served (s : State) (index position : Nat) (stage : RequestStage) (ready : Bool)
    (holder : Option Holder) (pc : Pc) : State :=
  { s with
    pc, ready, holder
    submissions := s.submissions.set index ⟨position, s.iteration, .pass s.pass, stage⟩ }

section Served

variable {s : State} {index position : Nat} {stage : RequestStage} {ready : Bool}
  {holder : Option Holder} {pc : Pc}

private theorem State.served_present (bound : index < s.submissions.length) :
    (s.served index position stage ready holder pc).submissions[index]? =
      some ⟨position, s.iteration, .pass s.pass, stage⟩ :=
  List.getElem?_set_self bound

/-- A step of the client thread while the executor is about to lock the mutex. -/
theorem State.served_callback (bound : index < s.submissions.length) :
    next (s.served index position stage ready holder .acquire) (.callback index) =
      (s.served index position stage ready holder .acquire).callbackNext index
        ⟨position, s.iteration, .pass s.pass, stage⟩ := by
  simp only [next, State.served_present bound]

end Served

/-- The server and the client thread serve the last request, and the executor
goes on to the commit phase. -/
theorem run_of_loaded {count : Nat} {s : State} (loaded : Loaded count s) :
    ∃ taken committed s', Transition.Run Step s (taken ++ [⟨committed, .post, s'⟩]) s' ∧
      committed.iteration = s.iteration ∧
      ∀ p, p < count → committed.submissions[p]? = s.submissions[p]? := by
  have bound : count < s.submissions.length := by rw [loaded.queued.length]; omega
  have present : s.submissions[count]? = some ⟨count, s.iteration, .pass s.pass, .queued⟩ := by
    have listed : s.submissions[count]? = some s.submissions[count] :=
      List.getElem?_eq_getElem bound
    obtain ⟨position, iteration, stage⟩ := loaded.queued.each _ _ listed
    rw [listed, ← loaded.last _ listed, ← stage, loaded.queued.iteration, ← iteration]
    exact congrArg (fun p => some (Submission.mk p _ _ _)) position
  have execute : Step s (.execute count)
      (s.served count count .executing false none .acquire) := by
    simp only [Step, next, present, ↓reduceIte, State.served, State.advance, loaded.pc,
      loaded.ready, loaded.holder]
  have complete : Step (s.served count count .executing false none .acquire) (.complete count)
      (s.served count count .completed false none .acquire) := by
    simp only [Step, next, State.served_present bound, ↓reduceIte]
    simp only [State.served, State.advance, List.set_set]
  have lock : Step (s.served count count .completed false none .acquire) (.callback count)
      (s.served count count .locked false (some (.callback count)) .acquire) := by
    rw [Step, State.served_callback bound]
    simp only [State.callbackNext, State.served, State.advance, State.alive, State.waiting,
      beq_self_eq_true, Bool.and_self, ↓reduceIte, List.set_set]
  have assign : Step (s.served count count .locked false (some (.callback count)) .acquire)
      (.callback count)
      (s.served count count .assigned true (some (.callback count)) .acquire) := by
    rw [Step, State.served_callback bound]
    simp only [State.callbackNext, State.served, State.advance, State.alive, State.waiting,
      beq_self_eq_true, Bool.and_self, Bool.or_true, List.set_set]
  have unlock : Step (s.served count count .assigned true (some (.callback count)) .acquire)
      (.callback count) (s.served count count .unlocked true none .acquire) := by
    rw [Step, State.served_callback bound]
    simp only [State.callbackNext, State.served, State.advance, State.alive, State.waiting,
      beq_self_eq_true, Bool.and_self, ↓reduceIte, List.set_set]
  have acquire : Step (s.served count count .unlocked true none .acquire) .acquire
      (s.served count count .unlocked true (some .executor) .test) := rfl
  have test : Step (s.served count count .unlocked true (some .executor) .test) .test
      (s.served count count .unlocked true none .commit) := rfl
  have post : Step (s.served count count .unlocked true none .commit) .post
      (s.served count count .unlocked true none .gate) := rfl
  refine ⟨_, _, _, (((((((Transition.Run.single execute).snoc complete).snoc lock).snoc
    assign).snoc unlock).snoc acquire).snoc test).snoc post, rfl, fun p earlier => ?_⟩
  exact List.getElem?_set_ne (Nat.ne_of_gt earlier)

private theorem exists_commit_before {front : List TritonBlock} {last : TritonBlock}
    {inferences : List Inference} {inference : Inference}
    (submits : List.Forall₂ Submits front inferences) (able : Submits last inference) :
    ∃ taken s, Transition.Run Step (chain front last) taken s ∧
      ∀ p, p < front.length → ¬ CommitsAfter taken p := by
  obtain ⟨before, s, front, loaded⟩ := exists_loaded submits able
  obtain ⟨taken, committed, s', back, iteration, others⟩ := run_of_loaded loaded
  refine ⟨_, s', front.append back, fun p inside after => ?_⟩
  have bound : p < s.submissions.length := by rw [loaded.queued.length]; omega
  have listed : s.submissions[p]? = some s.submissions[p] := List.getElem?_eq_getElem bound
  obtain ⟨position, same, stage⟩ := loaded.queued.each _ _ listed
  rw [← others p inside] at listed
  have post : (⟨committed, .post, s'⟩ : Transition.Taken State Move) ∈
      before ++ (taken ++ [⟨committed, .post, s'⟩]) :=
    List.mem_append_right _ (List.mem_append_right _ List.mem_cons_self)
  have done := after _ post rfl _ (List.mem_of_getElem? listed)
    (same.trans (iteration.trans loaded.queued.iteration).symm) position
  rw [stage] at done
  cases done

/-- **No chain is sequenced.** At every link the server may execute the later
request first, and the commit phase may find the earlier one still queued. -/
theorem chain_unsequenced (front : List TritonBlock) (last : TritonBlock)
    (inferences : List Inference) (inference : Inference)
    (submits : List.Forall₂ Submits front inferences) (able : Submits last inference) (p : Nat)
    (inside : p < front.length) :
    (∃ taken s, Transition.Run Step (chain front last) taken s ∧ ¬ ExecutesAfter taken p) ∧
      ∃ taken s, Transition.Run Step (chain front last) taken s ∧ ¬ CommitsAfter taken p := by
  refine ⟨exists_execution_before submits able inside, ?_⟩
  obtain ⟨taken, s, run, commits⟩ := exists_commit_before submits able
  exact ⟨taken, s, run, commits p inside⟩

private theorem submits_adder : Submits Stage.adder (Stage.adding .success) :=
  ⟨rfl, by decide +kernel, by decide⟩

/-- Three blocks, at the link between the first two. -/
theorem three_blocks_unsequenced :
    (∃ taken s, Transition.Run Step (chain [Stage.adder, Stage.adder] Stage.adder) taken s ∧
      ¬ ExecutesAfter taken 0) ∧
    ∃ taken s, Transition.Run Step (chain [Stage.adder, Stage.adder] Stage.adder) taken s ∧
      ¬ CommitsAfter taken 0 :=
  chain_unsequenced [Stage.adder, Stage.adder] Stage.adder _ _
    (.cons submits_adder (.cons submits_adder .nil)) submits_adder 0 (by decide)

/-- In a chain of two blocks, the request of the second one is executed before
that of the first one, and in another run the iteration is committed without
the first one. -/
theorem two_blocks_unordered :
    (∃ taken s, Transition.Run Step (chain [Stage.adder] Stage.adder) taken s ∧
      ¬ ExecutesAfter taken 0) ∧
    ∃ taken s, Transition.Run Step (chain [Stage.adder] Stage.adder) taken s ∧
      ¬ CommitsAfter taken 0 := by
  have submits : List.Forall₂ Submits [Stage.adder] [Stage.adding .success] :=
    .cons submits_adder .nil
  obtain ⟨taken, s, run, commits⟩ := exists_commit_before submits submits_adder
  exact ⟨exists_execution_before submits submits_adder Nat.one_pos, taken, s, run,
    commits 0 Nat.one_pos⟩

end Protocol

end TorchDsp
