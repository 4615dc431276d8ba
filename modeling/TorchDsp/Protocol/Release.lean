import TorchDsp.Protocol.Lifetime

/-! # The end of a wait

An executor that waits for a request the client has taken on can always be released:
whatever has happened so far, the server, the client threads and the executor have steps
left that end the wait, and it need not wake up for any other reason than the
notification of its callback (`TorchDsp.Protocol.Signalled.canCommit_of_awaits`). Nobody
holds the mutex for good, and no executor is asleep that has missed its notification
(`TorchDsp.Protocol.Signalled.Heard`). An executor that waits for no request stays where
it is.
-/

namespace TorchDsp

namespace Protocol

/-- Whether a move calls `do_work` of a block. -/
def Move.calls : Move → Bool
  | .passOver | .refuse | .infer _ => true
  | _ => false

/-- Whether a turn calls `do_work` of a block. -/
def Turn.calls : Turn → Bool
  | .move next => next.calls
  | .retry => true
  | .leave => false

/-! ## Who holds the mutex -/

/-- The mutex of a pass is held for a test of the flag or by the callback of the pass. -/
structure State.Held (s : State) : Prop where
  executor : s.waiting = true → s.holder = some .executor → s.pc = .test
  callback : s.waiting = true → ∀ index, s.holder = some (.callback index) →
    ∃ q, s.submissions[index]? = some q ∧ q.callback = .pass s.pass ∧
      (q.stage = .locked ∨ q.stage = .assigned)

namespace State

/-- While the executor runs, there is no mutex to hold. -/
theorem Held.of_running {s : State} (running : s.waiting = false) : s.Held :=
  ⟨fun absurd => (Bool.false_ne_true (running.symm.trans absurd)).elim,
    fun absurd => (Bool.false_ne_true (running.symm.trans absurd)).elim⟩

private theorem Held.of_free {s : State} (free : s.holder = none) : s.Held := by
  refine ⟨fun _ held => ?_, fun _ index held => ?_⟩
  · rw [free] at held
    cases held
  · rw [free] at held
    cases held

/-- A request outside its critical section moves on. -/
theorem Held.advance {s : State} {index : Nat} {q : Submission} (held : s.Held)
    (stage : RequestStage) (present : s.submissions[index]? = some q)
    (outside : ¬ (q.stage = .locked ∨ q.stage = .assigned)) : (s.advance index q stage).Held := by
  refine ⟨held.executor, fun waits j holder => ?_⟩
  obtain ⟨q', listed, own, critical⟩ := held.callback waits j holder
  have other : index ≠ j := by
    rintro rfl
    cases Option.some.inj (present.symm.trans listed)
    exact outside critical
  exact ⟨q', (List.getElem?_set_ne other).trans listed, own, critical⟩

private theorem Held.callbackStep {s s' : State} {index : Nat} {q : Submission} (held : s.Held)
    (orderly : s.Orderly) (present : s.submissions[index]? = some q)
    (calls : s.callbackNext index q = some s') : s'.Held := by
  have here (stage : RequestStage) :
      (s.advance index q stage).submissions[index]? = some { q with stage } :=
    List.getElem?_set_self (List.getElem?_eq_some_iff.mp present).1
  cases callbackStep_of_next calls with
  | nothing _ stage | notifies _ stage | strays _ stage _ =>
      exact held.advance _ present (by rw [stage]; decide)
  | locks callback stage alive free =>
      refine ⟨fun _ absurd => (Holder.noConfusion (Option.some.inj absurd)), ?_⟩
      intro waits j holder
      cases holder
      exact ⟨_, here .locked, ((alive_of_callback callback).mp alive).2, Or.inl rfl⟩
  | assigns callback stage =>
      refine ⟨held.executor, fun waits j holder => ?_⟩
      obtain ⟨q', listed, own, critical⟩ := held.callback waits j holder
      by_cases same : index = j
      · subst same
        cases Option.some.inj (present.symm.trans listed)
        exact ⟨_, here .assigned, own, Or.inr rfl⟩
      · exact ⟨q', (List.getElem?_set_ne same).trans listed, own, critical⟩
  | unlocks callback stage =>
      obtain ⟨waits, own⟩ := orderly.alive_of_unsettled present callback
        (by rw [stage]; decide) (by rw [stage]; decide)
      refine Held.of_free ?_
      change (if s.alive _ = true then none else s.holder) = none
      rw [(alive_of_callback callback).mpr ⟨waits, own⟩]
      rfl

/-- Every step of a protocol in order passes the mutex on. -/
theorem Held.step {s s' : State} {move : Move} (held : s.Held) (orderly : s.Orderly)
    (step : Step s move s') : s'.Held := by
  cases transits_of_step step with
  | begin _ | passOver _ | passes _ _ | post _ => exact .of_running rfl
  | refuseFront _ => exact held
  | refuseLast _ => exact .of_running rfl
  | inferFront _ _ calls =>
      obtain ⟨after, rfl, _⟩ := callFront_spec calls
      exact .of_running rfl
  | inferLast _ _ calls =>
      obtain ⟨after, rfl⟩ := callLast_spec calls
      exact .of_free rfl
  | acquire _ _ => exact ⟨fun _ _ => rfl, fun _ _ absurd => by cases absurd⟩
  | asleep _ _ => exact .of_free rfl
  | wake here =>
      have waits : s.waiting = true := by rw [waiting, here]
      refine ⟨fun _ mine => ?_, fun _ => held.callback waits⟩
      have testing := held.executor waits mine
      rw [here] at testing
      cases testing
  | execute present queued => exact held.advance _ present (by rw [queued]; decide)
  | complete present executing => exact held.advance _ present (by rw [executing]; decide)
  | callback present calls => exact held.callbackStep orderly present calls

/-- Nobody holds the mutex between the tests of the executor and outside the critical
section of the callback. -/
theorem Held.free {s : State} {index : Nat} {q : Submission} (held : s.Held)
    (orderly : s.Orderly) (waits : s.waiting = true) (present : s.submissions[index]? = some q)
    (own : q.callback = .pass s.pass) (outside : ¬ (q.stage = .locked ∨ q.stage = .assigned))
    (idle : s.pc ≠ .test) : s.holder = none := by
  cases holder : s.holder with
  | none => rfl
  | some holds =>
      cases holds with
      | executor => exact (idle (held.executor waits holder)).elim
      | callback j =>
          obtain ⟨q', listed, own', critical⟩ := held.callback waits j holder
          cases orderly.unique j index q' q s.pass listed present own' own
          cases Option.some.inj (present.symm.trans listed)
          exact (outside critical).elim

end State

/-! ## The way out of a wait -/

/-- How many steps are left until the callback of a request has notified. -/
def RequestStage.left : RequestStage → Nat
  | .queued => 6
  | .executing => 5
  | .completed => 4
  | .locked => 3
  | .assigned => 2
  | .unlocked => 1
  | .finished => 0

/-- How many steps the executor needs to get past its wait when the flag is set. When it is
not set, a test only keeps the mutex from the callback. -/
def Pc.left (set : Bool) : Pc → Nat
  | .sleep => if set then 3 else 0
  | .acquire => if set then 2 else 0
  | .test => 1
  | _ => 0

/-- The steps to the end of a wait, with the request of its pass at a stage. -/
def distance (stage : RequestStage) (pc : Pc) : Nat :=
  4 * stage.left + pc.left stage.hasSet

/-- The executor waits for the request at an index. -/
structure State.Awaits (s : State) (index : Nat) (q : Submission) : Prop where
  waiting : s.waiting = true
  present : s.submissions[index]? = some q
  own : q.callback = .pass s.pass

namespace State

private theorem pc_of_waiting {s : State} (waits : s.waiting = true) :
    s.pc = .sleep ∨ s.pc = .acquire ∨ s.pc = .test := by
  unfold waiting at waits
  split at waits <;> simp_all

/-- A step without a call ends a wait, or leads nearer to its end. The executor wakes up
only over a callback that has notified. -/
def Nearer (s : State) (index : Nat) (q : Submission) : Prop :=
  ∃ move s', move.calls = false ∧ (move = .wake → q.stage = .finished) ∧ Step s move s' ∧
    (s'.pc = .commit ∨
      ∃ q', s'.Awaits index q' ∧ distance q'.stage s'.pc < distance q.stage s.pc)

/-- The server and the client thread move the request on, wherever the executor waits. -/
theorem Awaits.nearer_of_client {s : State} {index : Nat} {q : Submission}
    (awaits : s.Awaits index q) (move : Move) (stage : RequestStage) (holder : Option Holder)
    (ready : Bool) (quiet : move.calls = false) (stays : move ≠ .wake)
    (step : Step s move { s.advance index q stage with holder, ready })
    (nearer : distance stage s.pc < distance q.stage s.pc) : s.Nearer index q :=
  ⟨move, _, quiet, fun wakes => (stays wakes).elim, step, Or.inr ⟨{ q with stage }, ⟨awaits.waiting,
    List.getElem?_set_self (List.getElem?_eq_some_iff.mp awaits.present).1, awaits.own⟩, nearer⟩⟩

private theorem Awaits.nearer_of_executor {s : State} {index : Nat} {q : Submission}
    (awaits : s.Awaits index q) (move : Move) (pc : Pc) (holder : Option Holder)
    (quiet : move.calls = false) (notified : move = .wake → q.stage = .finished)
    (step : Step s move { s with pc, holder })
    (stays : ({ s with pc } : State).waiting = true)
    (nearer : distance q.stage pc < distance q.stage s.pc) : s.Nearer index q :=
  ⟨move, _, quiet, notified, step, Or.inr ⟨q, ⟨stays, awaits.present, awaits.own⟩, nearer⟩⟩

/-- After the notification of the callback, the executor finds the flag set. -/
theorem Awaits.nearer_of_finished {s : State} {index : Nat} {q : Submission}
    (awaits : s.Awaits index q) (orderly : s.Orderly) (held : s.Held)
    (finished : q.stage = .finished) : s.Nearer index q := by
  have set : q.stage.hasSet = true := by rw [finished]; rfl
  have flag : s.ready = true :=
    (orderly.flag awaits.waiting index q awaits.present awaits.own).trans set
  rcases pc_of_waiting awaits.waiting with here | here | here
  · refine awaits.nearer_of_executor .wake .acquire s.holder rfl (fun _ => finished) ?_ rfl ?_
    · rw [Step, next, if_pos here]
    · simp [distance, here, set, Pc.left]
  · have free := held.free orderly awaits.waiting awaits.present awaits.own
      (by rw [finished]; decide) (by rw [here]; decide)
    refine awaits.nearer_of_executor .acquire .test (some .executor) rfl (fun _ => finished) ?_
      rfl ?_
    · rw [Step, next, if_pos ⟨here, free⟩]
    · simp [distance, here, set, Pc.left]
  · refine ⟨.test, { s with pc := .commit, holder := none }, rfl, fun _ => finished, ?_,
      Or.inl rfl⟩
    rw [Step, next, if_pos here, flag]
    rfl

/-- A completed request takes the mutex, which the executor gives up first if it holds it. -/
theorem Awaits.nearer_of_completed {s : State} {index : Nat} {q : Submission}
    (awaits : s.Awaits index q) (orderly : s.Orderly) (held : s.Held)
    (stage : q.stage = .completed) : s.Nearer index q := by
  have flag : s.ready = false :=
    (orderly.flag awaits.waiting index q awaits.present awaits.own).trans (by rw [stage]; rfl)
  by_cases testing : s.pc = .test
  · refine awaits.nearer_of_executor .test .sleep none rfl Move.noConfusion ?_ rfl ?_
    · rw [Step, next, if_pos testing, flag]
      rfl
    · simp [distance, testing, stage, Pc.left, RequestStage.hasSet]
  · have free := held.free orderly awaits.waiting awaits.present awaits.own
      (by rw [stage]; decide) testing
    have alive : s.alive s.pass = true := by
      rw [State.alive, awaits.waiting, beq_self_eq_true, Bool.and_self]
    refine awaits.nearer_of_client (.callback index) .locked (some (.callback index))
      s.ready rfl Move.noConfusion ?_ ?_
    · rw [Step, next, awaits.present]
      simp only [callbackNext, awaits.own, stage, alive, free, if_true]
      rfl
    · simp [distance, stage, RequestStage.left, RequestStage.hasSet]

/-- **There is a way out of a wait for a request.** -/
theorem Awaits.nearer {s : State} {index : Nat} {q : Submission} (awaits : s.Awaits index q)
    (orderly : s.Orderly) (held : s.Held) : s.Nearer index q := by
  cases stage : q.stage with
  | queued =>
      refine awaits.nearer_of_client (.execute index) .executing s.holder s.ready rfl
        Move.noConfusion ?_ ?_
      · rw [Step, next, awaits.present]
        exact if_pos stage
      · simp [distance, stage, RequestStage.left, RequestStage.hasSet]
  | executing =>
      refine awaits.nearer_of_client (.complete index) .completed s.holder s.ready rfl
        Move.noConfusion ?_ ?_
      · rw [Step, next, awaits.present]
        exact if_pos stage
      · simp [distance, stage, RequestStage.left, RequestStage.hasSet]
  | completed => exact awaits.nearer_of_completed orderly held stage
  | locked =>
      refine awaits.nearer_of_client (.callback index) .assigned s.holder
        (s.ready || s.alive s.pass) rfl Move.noConfusion ?_ ?_
      · rw [Step, next, awaits.present]
        simp only [callbackNext, awaits.own, stage]
        rfl
      · cases s.pc <;> simp [distance, stage, RequestStage.left, RequestStage.hasSet, Pc.left]
  | assigned =>
      refine awaits.nearer_of_client (.callback index) .unlocked
        (if s.alive s.pass then none else s.holder) s.ready rfl Move.noConfusion ?_ ?_
      · rw [Step, next, awaits.present]
        simp only [callbackNext, awaits.own, stage]
        rfl
      · simp [distance, stage, RequestStage.left, RequestStage.hasSet]
  | unlocked =>
      refine awaits.nearer_of_client (.callback index) .finished s.holder s.ready rfl
        Move.noConfusion ?_ ?_
      · rw [Step, next, awaits.present]
        simp only [callbackNext, awaits.own, stage]
        rfl
      · simp [distance, stage, RequestStage.left, RequestStage.hasSet]
  | finished => exact awaits.nearer_of_finished orderly held stage

end State

namespace Scoped

/-- A move of the protocol while no pass is about to be left. -/
theorem step_of_moved {s : Scoped} {move : Move} {state : State} (stays : s.leaving = false)
    (moved : Protocol.Step s.state move state) :
    Step s (.move move) { state, leaving := move.isTest && s.state.ready } := by
  rw [Step, next, stays, Bool.false_and, if_neg Bool.false_ne_true, moved]
  rfl

/-- A move of the protocol while the executor waits. -/
theorem Sound.step_of_waiting {s : Scoped} {move : Move} {state : State} (sound : s.Sound)
    (waits : s.state.waiting = true) (moved : Protocol.Step s.state move state) :
    Step s (.move move) { state, leaving := move.isTest && s.state.ready } := by
  refine step_of_moved ?_ moved
  by_contra left
  rw [Bool.not_eq_false] at left
  rw [State.waiting, sound.pc left] at waits
  cases waits

/-- A forsaken executor stays forsaken. -/
theorem forsaken_step {s s' : Scoped} {turn : Turn} (forsaken : Forsaken s.state)
    (step : Step s turn s') : Forsaken s'.state := by
  cases turn with
  | move move => exact forsaken.step (step_move step).2.1
  | retry =>
      obtain ⟨_, atLast, _⟩ := step_retry step
      exact (Bool.false_ne_true ((running_of_atLast atLast).symm.trans forsaken.waiting)).elim
  | leave =>
      obtain ⟨_, rfl⟩ := step_leave step
      exact forsaken

/-- A turn keeps who holds the mutex of a pass in order. -/
theorem held_step {s s' : Scoped} {turn : Turn} (sound : s.Sound) (held : s.state.Held)
    (step : Step s turn s') : s'.state.Held := by
  cases turn with
  | move move => exact held.step sound.orderly (step_move step).2.1
  | retry =>
      obtain ⟨_, atLast, rfl⟩ := step_retry step
      exact .of_running (running_of_atLast atLast)
  | leave =>
      obtain ⟨_, rfl⟩ := step_leave step
      exact held

end Scoped

/-! ## Notifications -/

/-- The next step of the callback of a request notifies the executor in its pass. -/
def State.notifies (s : State) (index : Nat) : Bool :=
  s.submissions[index]?.any fun q => q.callback = .pass s.pass && q.stage = .unlocked

/-- The protocol, and whether the executor has been notified since it last gave up the
mutex to sleep. -/
structure Signalled where
  core : Scoped
  notified : Bool := false

namespace Signalled

abbrev state (σ : Signalled) : State :=
  σ.core.state

/-- Whether the executor has been notified after a turn. A notification before it sleeps
does not count. -/
def heard (σ : Signalled) : Turn → Bool
  | .move (.callback index) => σ.notified || σ.state.notifies index
  | .move .test => false
  | _ => σ.notified

def Step (σ : Signalled) (turn : Turn) (σ' : Signalled) : Prop :=
  Scoped.Step σ.core turn σ'.core ∧ σ'.notified = σ.heard turn

/-- The executor can get to the commit phase without another call of `do_work`, and
without waking up unless it has been notified. -/
def CanCommit (σ : Signalled) : Prop :=
  ∃ later σ', Transition.Run Step σ later σ' ∧
    (∀ t ∈ later, t.label.calls = false ∧ (t.label = .move .wake → t.source.notified = true)) ∧
    σ'.state.pc = .commit

/-- The executor waits, and whatever happens it goes on waiting. -/
def WaitsForGood (σ : Signalled) : Prop :=
  ∀ later σ', Transition.Run Step σ later σ' → σ'.state.waiting = true

/-- An executor that sleeps although the callback of its pass has finished has been
notified. -/
def Heard (σ : Signalled) : Prop :=
  ∀ (index : Nat) (q : Submission), σ.state.submissions[index]? = some q →
    q.callback = .pass σ.state.pass → q.stage = .finished → σ.state.pc = .sleep →
      σ.notified = true

variable {σ σ' : Signalled} {turn : Turn}

/-- A request that moves on while the executor stays where it is. -/
private theorem Heard.advance {s' : State} {leaving notified : Bool} {index : Nat}
    {q : Submission} (heard : σ.Heard) (stage : RequestStage) (here : s'.pc = σ.state.pc)
    (pass : s'.pass = σ.state.pass)
    (submissions : s'.submissions = (σ.state.advance index q stage).submissions)
    (present : σ.state.submissions[index]? = some q) (keeps : σ.notified = true → notified = true)
    (finishes : q.callback = .pass σ.state.pass → stage = .finished → notified = true) :
    Heard ⟨⟨s', leaving⟩, notified⟩ := by
  intro j q' listed own finished asleep
  change s'.submissions[j]? = some q' at listed
  change q'.callback = .pass s'.pass at own
  change s'.pc = .sleep at asleep
  rw [here] at asleep
  rw [pass] at own
  rw [submissions] at listed
  by_cases same : index = j
  · subst same
    rw [State.advance, List.getElem?_set_self (List.getElem?_eq_some_iff.mp present).1] at listed
    cases listed
    exact finishes own finished
  · rw [State.advance, List.getElem?_set_ne same] at listed
    exact keeps (heard j q' listed own finished asleep)

/-- A step of a callback that finishes it notifies, and no step takes a notification back. -/
private theorem Heard.callback {s s' : State} {leaving leaving' notified : Bool} {index : Nat}
    {q : Submission} (heard : Heard ⟨⟨s, leaving⟩, notified⟩)
    (present : s.submissions[index]? = some q) (calls : s.callbackNext index q = some s') :
    Heard ⟨⟨s', leaving'⟩, notified || s.notifies index⟩ := by
  have keeps : notified = true → (notified || s.notifies index) = true := fun set => by
    rw [set, Bool.true_or]
  cases State.callbackStep_of_next calls with
  | notifies _ stage =>
      refine heard.advance .finished rfl rfl rfl present keeps fun own _ => ?_
      have notifies : s.notifies index = true := by
        rw [State.notifies, present, Option.any_some, own, stage]
        simp
      exact (congrArg (notified || ·) notifies).trans (Bool.or_true notified)
  | nothing callback _ =>
      refine heard.advance .finished rfl rfl rfl present keeps fun own _ => ?_
      cases callback.symm.trans own
  | locks _ _ _ _ | strays _ _ _ =>
      exact heard.advance .locked rfl rfl rfl present keeps fun _ absurd => by cases absurd
  | assigns _ _ =>
      exact heard.advance .assigned rfl rfl rfl present keeps fun _ absurd => by cases absurd
  | unlocks _ _ =>
      exact heard.advance .unlocked rfl rfl rfl present keeps fun _ absurd => by cases absurd

/-- **No notification is missed**: a turn does not put the executor to sleep over a
callback that has finished, and a callback that finishes notifies. -/
theorem Heard.step (heard : σ.Heard) (sound : σ.core.Sound) (step : Step σ turn σ') :
    σ'.Heard := by
  obtain ⟨⟨s, leaving⟩, notified⟩ := σ
  obtain ⟨⟨s', leaving'⟩, notified'⟩ := σ'
  obtain ⟨moves, rfl⟩ := step
  cases turn with
  | retry =>
      obtain ⟨_, atLast, same⟩ := Scoped.step_retry moves
      cases same
      intro _ _ _ _ _ asleep
      have running := Scoped.running_of_atLast atLast
      change s.pc = .sleep at asleep
      rw [State.waiting, asleep] at running
      cases running
  | leave =>
      obtain ⟨_, same⟩ := Scoped.step_leave moves
      cases same
      exact fun index q listed own finished asleep => heard index q listed own finished asleep
  | move move =>
      have moved : Protocol.Step s move s' := (Scoped.step_move moves).2.1
      cases transits_of_step moved with
      | begin _ | passOver _ | refuseLast _ | acquire _ _ | passes _ _ | wake _ | post _ =>
          exact fun _ _ _ _ _ asleep => by cases asleep
      | refuseFront here => exact fun _ _ _ _ _ asleep => by cases here.symm.trans asleep
      | inferFront _ _ calls =>
          obtain ⟨after, rfl, _⟩ := State.callFront_spec calls
          exact fun _ _ _ _ _ asleep => by cases asleep
      | inferLast _ _ calls =>
          obtain ⟨after, rfl⟩ := State.callLast_spec calls
          exact fun _ _ _ _ _ asleep => by cases asleep
      | asleep here unset =>
          intro index q listed own finished _
          have flag := sound.orderly.flag (by rw [State.waiting, here]) index q listed own
          rw [finished] at flag
          cases unset.symm.trans flag
      | execute present _ =>
          exact heard.advance .executing rfl rfl rfl present id fun _ absurd => by cases absurd
      | complete present _ =>
          exact heard.advance .completed rfl rfl rfl present id fun _ absurd => by cases absurd
      | callback present calls => exact heard.callback present calls

/-- What holds of the protocol and its notifications along every run. -/
structure Sound (σ : Signalled) : Prop where
  core : σ.core.Sound
  held : σ.state.Held
  heard : σ.Heard

/-- Every step keeps the notifications in agreement with the requests. -/
theorem Sound.step (sound : σ.Sound) (step : Step σ turn σ') : σ'.Sound :=
  ⟨sound.core.step step.1, Scoped.held_step sound.core sound.held step.1,
    sound.heard.step sound.core step⟩

/-- The executor waits for a request, at a distance from the end of its wait. -/
structure Near (steps : Nat) (σ : Signalled) : Prop where
  sound : σ.Sound
  awaits : ∃ index q, σ.state.Awaits index q ∧ distance q.stage σ.state.pc = steps

/-- **An executor that waits for a request can be released** by the notification of its
callback, without another call. -/
theorem canCommit_of_awaits {index : Nat} {q : Submission} (sound : σ.Sound)
    (awaits : σ.state.Awaits index q) : σ.CanCommit := by
  have near : Near (distance q.stage σ.state.pc) σ := ⟨sound, index, q, awaits, rfl⟩
  refine Transition.Run.exists_of_nearer Near (fun σ => σ.state.pc = .commit)
    (fun t : Transition.Taken Signalled Turn =>
      t.label.calls = false ∧ (t.label = .move .wake → t.source.notified = true))
    (fun steps σ near => ?_) near
  obtain ⟨sound, index, q, awaits, rfl⟩ := near
  obtain ⟨move, state, quiet, notified, moved, onward⟩ :=
    awaits.nearer sound.core.orderly sound.held
  have step : Step σ (.move move)
      ⟨{ state, leaving := move.isTest && σ.state.ready }, σ.heard (.move move)⟩ :=
    ⟨sound.core.step_of_waiting awaits.waiting moved, rfl⟩
  refine ⟨_, _, step, ⟨quiet, fun wakes => ?_⟩, onward.imp_right fun ⟨q', awaits, nearer⟩ => ?_⟩
  · cases wakes
    have asleep : σ.state.pc = .sleep := by
      cases transits_of_step moved with
      | wake here => exact here
    exact sound.heard index q awaits.present awaits.own (notified rfl) asleep
  · exact ⟨_, nearer, sound.step step, index, q', awaits, rfl⟩

/-- **A forsaken executor waits for good.** -/
theorem waitsForGood_of_forsaken (forsaken : Forsaken σ.state) : σ.WaitsForGood := by
  intro later σ' run
  have onward := run.invariant_of_step (fun σ => Forsaken σ.state) forsaken
    fun _ _ _ step forsaken => Scoped.forsaken_step forsaken step.1
  exact onward.waiting

end Signalled

end Protocol

end TorchDsp
