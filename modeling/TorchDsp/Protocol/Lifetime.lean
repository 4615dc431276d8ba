import TorchDsp.Protocol.Mutex

/-! # The lifetime of a pass

The mutex, the condition variable and the flag of a pass are local to the inner loop:
they cease to exist when the executor leaves the pass, after its wait or at the end of
a turn without one. The callback refers to them from a client thread, and notifies
after it has unlocked the mutex, when nothing holds the executor back any more. All
other steps of a callback come before the executor can leave
(`TorchDsp.Protocol.passes_outlive_iff`).
-/

namespace TorchDsp

namespace Protocol

/-- The protocol with the end of the scope of a pass as a step of its own. -/
structure Scoped where
  state : State
  /-- The wait has returned, and the objects of the pass still exist. -/
  leaving : Bool := false

inductive Turn
  | move (move : Move)
  /-- `do_work` of the last block reports something else, and the inner loop goes on with
  another pass. -/
  | retry
  /-- The executor leaves the pass it has waited in. -/
  | leave

/-- The moves of the executor, which cannot come before it has left a pass. -/
def Move.ofExecutor : Move → Bool
  | .execute _ | .complete _ | .callback _ => false
  | _ => true

/-- Whether the predicate is tested. -/
def Move.isTest : Move → Bool
  | .test => true
  | _ => false

/-- A pass that ends without a wait. -/
def State.retryLast (s : State) : State :=
  { s with last := s.installed, pass := s.pass + 1, ready := false, holder := none }

namespace Scoped

/-- Whether a pass has not been left. -/
def alive (s : Scoped) (pass : Nat) : Bool :=
  (s.state.waiting || s.leaving) && pass == s.state.pass

def next (s : Scoped) : Turn → Option Scoped
  | .move move =>
      if s.leaving && move.ofExecutor then none
      else (Protocol.next s.state move).map fun state =>
        { state, leaving := s.leaving || move.isTest && s.state.ready }
  | .retry =>
      if !s.leaving && s.state.atLast then some { state := s.state.retryLast } else none
  | .leave => if s.leaving then some { s with leaving := false } else none

def Step (s : Scoped) (turn : Turn) (s' : Scoped) : Prop :=
  next s turn = some s'

/-- Every step that a client thread can take in a callback acts on the objects of a pass
that has not been left. -/
def OnLivePass (s : Scoped) : Prop :=
  ∀ (index : Nat) (q : Submission) (n : Nat) (s' : Scoped),
    s.state.submissions[index]? = some q → q.callback = .pass n →
      Step s (.move (.callback index)) s' → s.alive n = true

end Scoped

/-- The last block has submitted the request at an index in the pass `n`. -/
def SubmittedIn (past : List (Transition.Taken Scoped Turn)) (n index : Nat) : Prop :=
  ∃ t ∈ past, ∃ inference, t.label = .move (.infer inference) ∧ t.source.state.atLast = true ∧
    t.target.state.pass = n ∧ t.source.state.submissions.length = index

/-- A step of the callback of the request at an index has set the flag of the pass `n`. -/
def SetIn (past : List (Transition.Taken Scoped Turn)) (n index : Nat) : Prop :=
  ∃ t ∈ past, t.label = .move (.callback index) ∧ t.source.state.pass = n ∧
    t.source.state.ready = false ∧ t.target.state.ready = true

/-- A wait that returns has been released by the callback of the one request that was
submitted in the pass. -/
def ReleasedByOwn (past : List (Transition.Taken Scoped Turn))
    (t : Transition.Taken Scoped Turn) : Prop :=
  t.label = .move .test → t.target.leaving = true →
    ∃ index q, t.source.state.Sole index q ∧ SubmittedIn past t.source.state.pass index ∧
      SetIn past t.source.state.pass index

/-- Along a run, callbacks act on passes that have not been left, and waits are released
by the callbacks of their passes. -/
structure PassesOutlive (taken : List (Transition.Taken Scoped Turn)) : Prop where
  objects : ∀ t ∈ taken, t.source.OnLivePass ∧ t.target.OnLivePass
  releases : ∀ front t later, taken = front ++ t :: later → ReleasedByOwn front t

namespace Scoped

/-! ## Steps -/

/-- A move within a scope is one of the protocol, by an executor that is not about to leave the
pass. -/
theorem step_move {s s' : Scoped} {move : Move} (step : Step s (.move move) s') :
    (move.ofExecutor = true → s.leaving = false) ∧ Protocol.Step s.state move s'.state ∧
      s'.leaving = (s.leaving || move.isTest && s.state.ready) := by
  obtain ⟨free, moves⟩ := Option.ite_none_left_eq_some.mp step
  obtain ⟨state, moved, rfl⟩ := Option.map_eq_some_iff.mp moves
  refine ⟨fun executor => ?_, moved, rfl⟩
  rw [executor, Bool.and_true, Bool.not_eq_true] at free
  exact free

/-- Only a last block that is about to be called starts over. -/
theorem step_retry {s s' : Scoped} (step : Step s .retry s') :
    s.leaving = false ∧ s.state.atLast = true ∧ s' = { state := s.state.retryLast } := by
  obtain ⟨here, same⟩ := Option.ite_none_right_eq_some.mp step
  rw [Bool.and_eq_true, Bool.not_eq_true'] at here
  exact ⟨here.1, here.2, (Option.some.inj same).symm⟩

/-- The scope of a pass ends when its wait is over. -/
theorem step_leave {s s' : Scoped} (step : Step s .leave s') :
    s.leaving = true ∧ s' = { s with leaving := false } := by
  obtain ⟨here, same⟩ := Option.ite_none_right_eq_some.mp step
  exact ⟨here, (Option.some.inj same).symm⟩

/-- The callback whose steps a client thread takes. -/
theorem exists_callbackNext {s s' : Scoped} {index : Nat} {q : Submission}
    (step : Step s (.move (.callback index)) s') (present : s.state.submissions[index]? = some q) :
    ∃ state, s.state.callbackNext index q = some state := by
  have moved := (step_move step).2.1
  rw [Protocol.Step, Protocol.next, present] at moved
  exact ⟨_, moved⟩

/-- An executor that is about to call the last block does not wait. -/
theorem running_of_atLast {s : State} (atLast : s.atLast = true) : s.waiting = false := by
  unfold State.atLast at atLast
  split at atLast
  · rename_i here
    rw [State.waiting, here]
  · cases atLast

/-- The server and the client threads do not move the executor. -/
theorem same_of_client {s s' : State} {move : Move} (client : move.ofExecutor = false)
    (step : Protocol.Step s move s') : s'.pc = s.pc ∧ s'.pass = s.pass := by
  cases transits_of_step step with
  | execute _ _ => exact ⟨rfl, rfl⟩
  | complete _ _ => exact ⟨rfl, rfl⟩
  | callback _ calls =>
      cases State.callbackStep_of_next calls <;> exact ⟨rfl, rfl⟩
  | _ => cases client

/-- The executor gets past its wait only by a test that finds the flag set. -/
theorem waits_or_passes {s s' : State} {move : Move} (waiting : s.waiting = true)
    (step : Protocol.Step s move s') :
    s'.pass = s.pass ∧ (s'.waiting = true ∨ move.isTest = true ∧ s.ready = true) := by
  cases transits_of_step step with
  | begin here | passOver here | refuseFront here | refuseLast here | inferFront here _ _
  | inferLast here _ _ | post here =>
      rw [State.waiting, here] at waiting
      cases waiting
  | acquire _ _ | asleep _ _ | wake _ => exact ⟨rfl, Or.inl rfl⟩
  | passes _ set => exact ⟨rfl, Or.inr ⟨rfl, set⟩⟩
  | execute _ _ | complete _ _ => exact ⟨rfl, Or.inl waiting⟩
  | callback _ calls =>
      cases State.callbackStep_of_next calls <;> exact ⟨rfl, Or.inl waiting⟩

private theorem pc_of_passes {s s' : State} {move : Move} (step : Protocol.Step s move s')
    (tests : move.isTest = true) (set : s.ready = true) : s'.pc = .commit := by
  cases transits_of_step step with
  | asleep _ unset => exact (Bool.false_ne_true (unset.symm.trans set)).elim
  | passes _ _ => rfl
  | _ => cases tests

/-- A protocol in order, whose executor leaves a pass before the commit phase. -/
structure Sound (s : Scoped) : Prop where
  orderly : s.state.Orderly
  pc : s.leaving = true → s.state.pc = .commit

/-- Every step keeps the protocol in order and the executor before the commit phase. -/
theorem Sound.step {s s' : Scoped} {turn : Turn} (sound : s.Sound) (step : Step s turn s') :
    s'.Sound := by
  cases turn with
  | move move =>
      obtain ⟨free, moved, leaving⟩ := step_move step
      refine ⟨sound.orderly.step moved, fun left => ?_⟩
      rw [leaving, Bool.or_eq_true, Bool.and_eq_true] at left
      rcases left with left | ⟨tests, set⟩
      · have client : move.ofExecutor = false :=
          Bool.eq_false_iff.mpr fun executor => Bool.false_ne_true ((free executor).symm.trans left)
        exact (same_of_client client moved).1.trans (sound.pc left)
      · exact pc_of_passes moved tests set
  | retry =>
      obtain ⟨_, atLast, rfl⟩ := step_retry step
      have running := running_of_atLast atLast
      exact ⟨sound.orderly.running running running rfl (Nat.le_succ _) rfl, fun absurd => by
        cases absurd⟩
  | leave =>
      obtain ⟨_, rfl⟩ := step_leave step
      exact ⟨sound.orderly, fun absurd => by cases absurd⟩

/-- Only the end of its scope ends the life of a pass. -/
theorem alive_of_move {s s' : Scoped} {move : Move} {n : Nat} (step : Step s (.move move) s')
    (alive : s.alive n = true) : s'.alive n = true := by
  obtain ⟨free, moved, leaving⟩ := step_move step
  rw [Scoped.alive, Bool.and_eq_true, Bool.or_eq_true] at alive
  rw [Scoped.alive, Bool.and_eq_true, Bool.or_eq_true, leaving]
  rcases alive with ⟨waits | leaves, same⟩
  · obtain ⟨pass, stays | ⟨tests, set⟩⟩ := waits_or_passes waits moved
    · exact ⟨Or.inl stays, pass ▸ same⟩
    · exact ⟨Or.inr (by rw [tests, set, Bool.and_self, Bool.or_true]), pass ▸ same⟩
  · have client : move.ofExecutor = false :=
      Bool.eq_false_iff.mpr fun executor => Bool.false_ne_true ((free executor).symm.trans leaves)
    have pass := (same_of_client client moved).2
    exact ⟨Or.inr (by rw [leaves, Bool.true_or]), pass ▸ same⟩

/-! ## The objects of a pass -/

/-- A request that a move adds. The callback of a pass is that of the last block. -/
structure Added (s : State) (move : Move) (s' : State) (j : Nat) (q : Submission) : Prop where
  stage : q.stage = .queued
  own : ∀ n, q.callback = .pass n → (∃ inference, move = .infer inference) ∧ s.atLast = true ∧
    s'.pass = n ∧ s.submissions.length = j

/-- A request is listed after a move as it was before, or it is new, or it has come from
a stage that was not the last one. -/
theorem listed_before {s s' : State} {move : Move} (numbered : s.Numbered)
    (step : Protocol.Step s move s') {j : Nat} {q' : Submission}
    (listed : s'.submissions[j]? = some q') :
    s.submissions[j]? = some q' ∨ Added s move s' j q' ∨
      ∃ q, s.submissions[j]? = some q ∧ q.callback = q'.callback ∧ q.stage ≠ .finished := by
  have advanced {index : Nat} {q : Submission} {stage : RequestStage}
      (present : s.submissions[index]? = some q) (unfinished : q.stage ≠ .finished)
      (listed : (s.advance index q stage).submissions[j]? = some q') :
      s.submissions[j]? = some q' ∨ Added s move s' j q' ∨
        ∃ q, s.submissions[j]? = some q ∧ q.callback = q'.callback ∧ q.stage ≠ .finished := by
    rcases State.getElem?_advance listed with ⟨rfl, rfl⟩ | ⟨_, old⟩
    · exact Or.inr (Or.inr ⟨q, present, rfl, unfinished⟩)
    · exact Or.inl old
  cases transits_of_step step with
  | begin _ | passOver _ | refuseFront _ | refuseLast _ | acquire _ _ | asleep _ _ | passes _ _
  | wake _ | post _ => exact Or.inl listed
  | inferFront _ present calls =>
      obtain ⟨after, rfl, _⟩ := State.callFront_spec calls
      have quiet := numbered.front _ (List.mem_of_getElem? present)
      refine (State.getElem?_submitted listed).imp_right fun new =>
        Or.inl ⟨new.2.2, fun n own => ?_⟩
      rw [new.2.1, quiet] at own
      cases own
  | inferLast _ atLast calls =>
      obtain ⟨after, rfl⟩ := State.callLast_spec calls
      refine (State.getElem?_submitted listed).imp_right fun new =>
        Or.inl ⟨new.2.2, fun n own => ?_⟩
      rw [new.2.1] at own
      cases own
      exact ⟨⟨_, rfl⟩, atLast, rfl, new.1.symm⟩
  | execute present queued => exact advanced present (by rw [queued]; decide) listed
  | complete present executing => exact advanced present (by rw [executing]; decide) listed
  | callback present calls =>
      cases State.callbackStep_of_next calls with
      | nothing _ stage | locks _ stage _ _ | assigns _ stage | unlocks _ stage
      | notifies _ stage | strays _ stage _ =>
          exact advanced present (by rw [stage]; decide) listed

/-- The callbacks of passes that have been left have made all their steps. -/
def Clear (s : Scoped) : Prop :=
  ∀ (index : Nat) (q : Submission) (n : Nat), s.state.submissions[index]? = some q →
    q.callback = .pass n → s.alive n = false → q.stage = .finished

private theorem Clear.onLivePass {s : Scoped} (clear : s.Clear) : s.OnLivePass := by
  intro index q n s' present own step
  by_contra left
  have stage := clear index q n present own (Bool.eq_false_iff.mpr left)
  obtain ⟨state, calls⟩ := exists_callbackNext step present
  rw [State.callbackNext, own, stage] at calls
  cases calls

/-- No callback of the pass stands between its unlock and its notification. -/
def Notified (s : Scoped) : Prop :=
  ∀ q ∈ s.state.submissions, q.callback = .pass s.state.pass → q.stage ≠ .unlocked

/-- A pass that is left only when its callbacks have notified is never touched again. -/
theorem Clear.step {s s' : Scoped} {turn : Turn} (clear : s.Clear) (sound : s.Sound)
    (step : Step s turn s') (notified : turn = .leave → s.Notified) : s'.Clear := by
  intro index q n listed own left
  cases turn with
  | move move =>
      have moved := (step_move step).2.1
      have gone : s'.state.alive n = false := by
        rw [alive, Bool.and_eq_false_iff, Bool.or_eq_false_iff] at left
        rw [State.alive, Bool.and_eq_false_iff]
        exact left.imp_left And.left
      have before : s.alive n = false := Bool.eq_false_iff.mpr fun alive =>
        Bool.false_ne_true (left.symm.trans (alive_of_move step alive))
      rcases listed_before sound.orderly.numbered moved listed with
        old | added | ⟨q₀, old, same, unfinished⟩
      · exact clear index q n old own before
      · rcases (sound.step step).orderly.settled index q n listed own gone with absurd | stage
        · rw [added.stage] at absurd
          cases absurd
        · exact stage
      · exact (unfinished (clear index q₀ n old (same.trans own) before)).elim
  | retry =>
      obtain ⟨free, atLast, rfl⟩ := step_retry step
      refine clear index q n listed own ?_
      rw [alive, free, running_of_atLast atLast]
      rfl
  | leave =>
      obtain ⟨leaves, rfl⟩ := step_leave step
      have outside : s.state.waiting = false := by rw [State.waiting, sound.pc leaves]
      by_cases current : n = s.state.pass
      · subst current
        rcases sound.orderly.settled index q _ listed own (State.alive_of_running outside _) with
          unlocked | stage
        · exact (notified rfl q (List.mem_of_getElem? listed) own unlocked).elim
        · exact stage
      · refine clear index q n listed own ?_
        rw [alive, Bool.and_eq_false_iff]
        exact Or.inr (beq_eq_false_iff_ne.mpr current)

/-- A callback that has unlocked notifies, whatever has become of its pass. -/
theorem exists_notifies (s : Scoped) {index n : Nat} {q : Submission}
    (present : s.state.submissions[index]? = some q) (own : q.callback = .pass n)
    (unlocked : q.stage = .unlocked) : ∃ s', Step s (.move (.callback index)) s' := by
  have calls : s.state.callbackNext index q = some (s.state.advance index q .finished) := by
    rw [State.callbackNext, own, unlocked]
  have moved : Protocol.next s.state (.callback index) =
      some (s.state.advance index q .finished) := by
    simp only [Protocol.next, present, calls]
  refine ⟨_, (if_neg ?_).trans (congrArg (Option.map _) moved)⟩
  rw [Move.ofExecutor, Bool.and_false]
  exact Bool.false_ne_true

/-- A callback that is short of its notification when the executor leaves its pass acts
on the objects of a pass that has been left. -/
theorem notified_of_onLivePass {s s' : Scoped} (sound : s.Sound) (step : Step s .leave s')
    (onLive : s'.OnLivePass) : s.Notified := by
  intro q member own unlocked
  obtain ⟨leaves, rfl⟩ := step_leave step
  obtain ⟨index, present⟩ := List.getElem?_of_mem member
  have outside : s.state.waiting = false := by rw [State.waiting, sound.pc leaves]
  obtain ⟨s'', notifies⟩ := exists_notifies { s with leaving := false } present own unlocked
  have alive := onLive index q _ _ present own notifies
  rw [Scoped.alive, outside] at alive
  exact Bool.false_ne_true alive

end Scoped

/-! ## The wait of a pass -/

/-- A request that moves on keeps its place and its callback. -/
theorem exists_getElem?_advance {s : State} {index j : Nat} {q q₀ : Submission}
    (stage : RequestStage) (present : s.submissions[index]? = some q)
    (listed : s.submissions[j]? = some q₀) :
    ∃ q', (s.advance index q stage).submissions[j]? = some q' ∧ q'.callback = q₀.callback := by
  by_cases same : index = j
  · subst same
    cases Option.some.inj (present.symm.trans listed)
    exact ⟨_, List.getElem?_set_self (List.getElem?_eq_some_iff.mp present).1, rfl⟩
  · exact ⟨q₀, (List.getElem?_set_ne same).trans listed, rfl⟩

private theorem waiting_of_test {s s' : State} (step : Protocol.Step s .test s') :
    s.waiting = true := by
  cases transits_of_step step with
  | asleep here _ | passes here _ => rw [State.waiting, here]

/-- The flag of a wait was set before a move, or the move is the assignment of the callback
of the pass. -/
theorem flag_before {s s' : State} {move : Move} (step : Protocol.Step s move s')
    (waits : s'.waiting = true) (set : s'.ready = true) :
    s'.pass = s.pass ∧
      (s.waiting = true ∧ s.ready = true ∧ (∀ (index : Nat) (q : Submission),
          s.submissions[index]? = some q →
            ∃ q', s'.submissions[index]? = some q' ∧ q'.callback = q.callback) ∨
        s.ready = false ∧ ∃ index q, move = .callback index ∧
          s'.submissions[index]? = some q ∧ q.callback = .pass s.pass) := by
  cases transits_of_step step with
  | begin _ | passOver _ | refuseLast _ | passes _ _ | post _ => cases waits
  | refuseFront here =>
      rw [State.waiting, here] at waits
      cases waits
  | inferFront _ _ calls =>
      obtain ⟨after, rfl, _⟩ := State.callFront_spec calls
      cases waits
  | inferLast _ _ calls =>
      obtain ⟨after, rfl⟩ := State.callLast_spec calls
      cases set
  | acquire here _ | asleep here _ | wake here =>
      exact ⟨rfl, Or.inl ⟨by rw [State.waiting, here], set, fun _ q listed => ⟨q, listed, rfl⟩⟩⟩
  | execute present _ | complete present _ =>
      exact ⟨rfl, Or.inl ⟨waits, set, fun _ _ => exists_getElem?_advance _ present⟩⟩
  | callback present calls =>
      cases State.callbackStep_of_next calls with
      | nothing _ _ | locks _ _ _ _ | unlocks _ _ | notifies _ _ | strays _ _ _ =>
          exact ⟨rfl, Or.inl ⟨waits, set, fun _ _ => exists_getElem?_advance _ present⟩⟩
      | assigns callback _ =>
          refine ⟨rfl, ?_⟩
          by_cases before : s.ready = true
          · exact Or.inl ⟨waits, before, fun _ _ => exists_getElem?_advance _ present⟩
          · have unset := Bool.eq_false_iff.mpr before
            have alive := set
            rw [unset, Bool.false_or] at alive
            obtain ⟨q', listed, same⟩ := exists_getElem?_advance .assigned present present
            exact Or.inr ⟨unset, _, q', rfl, listed,
              same.trans ((State.alive_of_callback callback).mp alive).2⟩

/-- What was submitted in a pass stays so. -/
theorem SubmittedIn.append {past : List (Transition.Taken Scoped Turn)} {n index : Nat}
    (submitted : SubmittedIn past n index) (t : Transition.Taken Scoped Turn) :
    SubmittedIn (past ++ [t]) n index := by
  obtain ⟨u, member, rest⟩ := submitted
  exact ⟨u, List.mem_append_left _ member, rest⟩

/-- A flag that has been set stays in the past. -/
theorem SetIn.append {past : List (Transition.Taken Scoped Turn)} {n index : Nat}
    (set : SetIn past n index) (t : Transition.Taken Scoped Turn) :
    SetIn (past ++ [t]) n index := by
  obtain ⟨u, member, rest⟩ := set
  exact ⟨u, List.mem_append_left _ member, rest⟩

open Scoped in
/-- The past tells where the requests and the flag of the current pass come from. -/
structure Traced (past : List (Transition.Taken Scoped Turn)) (s : Scoped) : Prop where
  sound : s.Sound
  submitted : ∀ (index : Nat) (q : Submission) (n : Nat), s.state.submissions[index]? = some q →
    q.callback = .pass n → SubmittedIn past n index
  set : s.state.waiting = true → s.state.ready = true → ∃ index q,
    s.state.submissions[index]? = some q ∧ q.callback = .pass s.state.pass ∧
      SetIn past s.state.pass index

private theorem Traced.submitted_step {past : List (Transition.Taken Scoped Turn)} {s s' : Scoped}
    {turn : Turn} (traced : Traced past s) (step : Scoped.Step s turn s') {index n : Nat}
    {q : Submission} (listed : s'.state.submissions[index]? = some q)
    (own : q.callback = .pass n) : SubmittedIn (past ++ [⟨s, turn, s'⟩]) n index := by
  have before {q₀ : Submission} (old : s.state.submissions[index]? = some q₀)
      (same : q₀.callback = q.callback) : SubmittedIn (past ++ [⟨s, turn, s'⟩]) n index :=
    (traced.submitted index q₀ n old (same.trans own)).append _
  cases turn with
  | move move =>
      have moved := (Scoped.step_move step).2.1
      rcases Scoped.listed_before traced.sound.orderly.numbered moved listed with
        old | added | ⟨q₀, old, same, _⟩
      · exact before old rfl
      · obtain ⟨⟨inference, rfl⟩, atLast, pass, length⟩ := added.own n own
        exact ⟨_, List.mem_concat_self, inference, rfl, atLast, pass, length⟩
      · exact before old same
  | retry =>
      obtain ⟨_, _, rfl⟩ := Scoped.step_retry step
      exact before listed rfl
  | leave =>
      obtain ⟨_, rfl⟩ := Scoped.step_leave step
      exact before listed rfl

/-- The flag of a pass is set by the callback of its request. -/
theorem Traced.set_step {past : List (Transition.Taken Scoped Turn)} {s s' : Scoped}
    {turn : Turn} (traced : Traced past s) (step : Scoped.Step s turn s')
    (waits : s'.state.waiting = true) (ready : s'.state.ready = true) :
    ∃ index q, s'.state.submissions[index]? = some q ∧ q.callback = .pass s'.state.pass ∧
      SetIn (past ++ [⟨s, turn, s'⟩]) s'.state.pass index := by
  cases turn with
  | move move =>
      have moved := (Scoped.step_move step).2.1
      obtain ⟨pass, ⟨waited, set, listed⟩ | ⟨unset, index, q, rfl, listed, own⟩⟩ :=
        flag_before moved waits ready
      · obtain ⟨index, q, present, own, sets⟩ := traced.set waited set
        obtain ⟨q', after, same⟩ := listed index q present
        rw [pass]
        exact ⟨index, q', after, same.trans own, sets.append _⟩
      · rw [pass]
        exact ⟨index, q, listed, own, _, List.mem_concat_self, rfl, rfl, unset, ready⟩
  | retry =>
      obtain ⟨_, atLast, rfl⟩ := Scoped.step_retry step
      cases ready
  | leave =>
      obtain ⟨_, rfl⟩ := Scoped.step_leave step
      obtain ⟨index, q, present, own, sets⟩ := traced.set waits ready
      exact ⟨index, q, present, own, sets.append _⟩

/-- Every step adds what it does to the past. -/
theorem Traced.step {past : List (Transition.Taken Scoped Turn)} {s s' : Scoped} {turn : Turn}
    (traced : Traced past s) (step : Scoped.Step s turn s') :
    Traced (past ++ [⟨s, turn, s'⟩]) s' where
  sound := traced.sound.step step
  submitted := fun _ _ _ listed own => traced.submitted_step step listed own
  set := traced.set_step step

private theorem Traced.releasedByOwn {past : List (Transition.Taken Scoped Turn)}
    {t : Transition.Taken Scoped Turn} (traced : Traced past t.source)
    (step : Scoped.Step t.source t.label t.target) : ReleasedByOwn past t := by
  intro test leaves
  rw [test] at step
  obtain ⟨free, moved, leaving⟩ := Scoped.step_move step
  rw [leaves, free rfl, Bool.false_or, eq_comm] at leaving
  have set : t.source.state.ready = true := leaving
  have waits : t.source.state.waiting = true := waiting_of_test moved
  obtain ⟨index, q, present, own, sets⟩ := traced.set waits set
  refine ⟨index, q, ⟨present, own, fun j q' listed carries => ?_⟩,
    traced.submitted index q _ present own, sets⟩
  exact traced.sound.orderly.unique j index q' q _ listed present carries own

/-- At first there is no request and no flag to trace. -/
theorem traced_initial {s : State} (initial : Initial s) : Traced [] { state := s } := by
  have empty {P : Prop} {index : Nat} {q : Submission} (listed : s.submissions[index]? = some q) :
      P := by
    rw [initial.submissions] at listed
    cases listed
  have outside : s.waiting = false := by rw [State.waiting, initial.pc]
  have waits {P : Prop} (waits : s.waiting = true) : P :=
    (Bool.false_ne_true (outside.symm.trans waits)).elim
  refine ⟨⟨⟨⟨initial.callbacks, fun q member => ?_⟩, fun _ _ _ _ _ listed => empty listed,
    fun absurd => waits absurd, fun absurd => waits absurd, fun absurd => ?_,
    fun _ _ _ listed => empty listed⟩, fun absurd => by cases absurd⟩,
    fun _ _ _ listed => empty listed, fun absurd => waits absurd⟩
  · rw [initial.submissions] at member
    cases member
  · rw [initial.pc] at absurd
    cases absurd

open Scoped in
/-- **The lifetime of a pass.** -/
theorem passes_outlive_iff (s : State) (s' : Scoped) (taken : List (Transition.Taken Scoped Turn))
    (initial : Initial s) (run : Transition.Run Scoped.Step { state := s } taken s') :
    PassesOutlive taken ↔ ∀ t ∈ taken, t.label = .leave → t.source.Notified := by
  have start := traced_initial initial
  have traced : ∀ front t later, taken = front ++ t :: later → Traced front t.source :=
    run.history Traced start fun _ _ step traced => traced.step step
  constructor
  · intro outlive t member label
    obtain ⟨front, later, split⟩ := List.append_of_mem member
    have step := run.step_of_mem t member
    rw [label] at step
    exact notified_of_onLivePass (traced front t later split).sound step
      (outlive.objects t member).2
  · intro notified
    have clear : Clear { state := s } := by
      intro index q n listed
      rw [initial.submissions] at listed
      cases listed
    have along := run.invariant (fun s => s.Sound ∧ s.Clear) ⟨start.sound, clear⟩
      fun t member step holds => ⟨holds.1.step step,
        holds.2.step holds.1 step (notified t member)⟩
    refine ⟨fun t member => ?_, fun front t later split => ?_⟩
    · exact ⟨(along.2 t member).1.2.onLivePass, (along.2 t member).2.2.onLivePass⟩
    · have member : t ∈ taken := split ▸ List.mem_append_right front List.mem_cons_self
      exact (traced front t later split).releasedByOwn (run.step_of_mem t member)

/-! ## A group of one block -/

/-- One iteration of a group of one block up to the end of the wait. The callback has
made `count` steps. -/
def untilReturn (inference : Inference) (count : Nat) : List Turn :=
  [.move .begin, .move (.infer inference), .move (.execute 0), .move (.complete 0)] ++
    List.replicate count (.move (.callback 0)) ++ [.move .acquire, .move .test]

/-- The end of the wait, with the callback at a stage. -/
structure Returned (s : Scoped) (q : Submission) (stage : RequestStage) : Prop where
  leaving : s.leaving = true
  outside : s.state.waiting = false
  submissions : s.state.submissions = [q]
  callback : q.callback = .pass 1
  stage : q.stage = stage

private theorem exists_returned {count : Nat} {stage : RequestStage}
    (follows : (Transition.follow Scoped.next { state := alone Stage.adder }
      (untilReturn (Stage.adding .success) count)).map (fun s =>
        (s.leaving, s.state.waiting, s.state.submissions.map fun q => (q.callback, q.stage))) =
      some (true, false, [(.pass 1, stage)])) :
    ∃ taken s q, Transition.Run Scoped.Step { state := alone Stage.adder } taken s ∧
      (∀ t ∈ taken, t.label ≠ .leave) ∧ Returned s q stage := by
  obtain ⟨s, reaches, values⟩ := Option.map_eq_some_iff.mp follows
  obtain ⟨taken, run, labels⟩ := Transition.Run.of_follow reaches
  obtain ⟨leaving, values⟩ := Prod.mk.inj values
  obtain ⟨outside, listed⟩ := Prod.mk.inj values
  obtain ⟨q, submissions, same⟩ := List.map_eq_singleton_iff.mp listed
  obtain ⟨callback, stage⟩ := Prod.mk.inj same
  refine ⟨taken, s, q, run, fun t member label => ?_, leaving, outside, submissions, callback,
    stage⟩
  have among : t.label ∈ untilReturn (Stage.adding .success) count :=
    labels ▸ List.mem_map_of_mem member
  rw [label] at among
  simp [untilReturn] at among

/-- The callback has notified before the wait returns. -/
theorem notified_pass : ∃ taken s,
    Transition.Run Scoped.Step { state := alone Stage.adder } taken s ∧
      (∃ t ∈ taken, t.label = .leave) ∧ PassesOutlive taken := by
  obtain ⟨taken, s, q, run, stays, returned⟩ :=
    @exists_returned 4 .finished (by decide +kernel)
  have leaves : Scoped.Step s .leave { s with leaving := false } := if_pos returned.leaving
  refine ⟨_, _, run.snoc leaves, ⟨_, List.mem_concat_self, rfl⟩,
    (passes_outlive_iff _ _ _ (initial_alone _) (run.snoc leaves)).mpr fun t member label => ?_⟩
  rcases List.mem_append.mp member with before | last
  · exact (stays t before label).elim
  · cases List.mem_singleton.mp last
    intro other listed _ unlocked
    rw [returned.submissions, List.mem_singleton] at listed
    rw [listed, returned.stage] at unlocked
    cases unlocked

/-- The wait returns between the unlock of the callback and its notification, which
then comes when the pass has been left. -/
theorem notification_after_pass : ∃ taken s s' n,
    Transition.Run Scoped.Step { state := alone Stage.adder } taken s ∧
      Scoped.Step s (.move (.callback 0)) s' ∧
      s.state.submissions.map Submission.callback = [.pass n] ∧ s.alive n = false ∧
      ¬ PassesOutlive taken := by
  obtain ⟨taken, s, q, run, stays, returned⟩ :=
    @exists_returned 3 .unlocked (by decide +kernel)
  have leaves : Scoped.Step s .leave { s with leaving := false } := if_pos returned.leaving
  have present : s.state.submissions[0]? = some q := by
    rw [returned.submissions]
    rfl
  obtain ⟨s', notifies⟩ := Scoped.exists_notifies { s with leaving := false } present
    returned.callback returned.stage
  have left : ({ s with leaving := false } : Scoped).alive 1 = false := by
    rw [Scoped.alive, returned.outside]
    rfl
  refine ⟨_, _, s', 1, run.snoc leaves, notifies, ?_, left, fun outlive => ?_⟩
  · rw [returned.submissions, List.map_singleton, returned.callback]
  · have alive := (outlive.objects _ List.mem_concat_self).2 0 q 1 s' present returned.callback
      notifies
    exact Bool.false_ne_true (left.symm.trans alive)

end Protocol

end TorchDsp
