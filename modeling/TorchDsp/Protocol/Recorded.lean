import TorchDsp.Executor.Endings
import TorchDsp.Protocol.Release

/-! # The protocol and the iteration

The executor runs its iteration on the reports that the blocks make, one of which says
whether the callback of the last block is made; the protocol has the callback make its
steps. The two agree at every moment of every run: with the reports made so far, the
iteration returns if the executor can get to its commit phase without another call of
`do_work`, waits for a callback if the executor waits for good, and goes on with an inner
loop if the executor is before a block (`TorchDsp.Protocol.iteration_agrees`).
-/

namespace TorchDsp

namespace Protocol

/-- The triton block at a position as it is called, the last one with the callback of a
new pass. -/
def State.called (s : State) (position : Nat) : Option TritonBlock :=
  match s.front[position]? with
  | some b => b
  | none => some s.installed

/-- The reports that a turn makes, and the position of their block. -/
inductive Makes (s : State) : Turn → Nat → List WorkReport → Prop
  /-- A block of another kind is called until it leaves its inner loop. -/
  | passOver {p : Nat} {earlier : List WorkReport} {r : WorkReport} (here : s.pc = .run p)
      (stays : ∀ e ∈ earlier, e.leaves false = false) (leaves : r.leaves false = true) :
      Makes s (.move .passOver) p (earlier ++ [r])
  | refuse {p : Nat} {b : TritonBlock} {r : WorkReport} (here : s.pc = .run p)
      (called : s.called p = some b) (reported : b.Reported none r) :
      Makes s (.move .refuse) p [r]
  | infer {p : Nat} {b : TritonBlock} {inference : Inference} {r : WorkReport}
      (here : s.pc = .run p) (called : s.called p = some b)
      (reported : b.Reported (some inference) r) : Makes s (.move (.infer inference)) p [r]
  | retry {p : Nat} {r : WorkReport} {code : Int} (here : s.pc = .run p)
      (other : r.ret = .other code) : Makes s .retry p [r]
  | quiet {turn : Turn} {p : Nat} (quiet : turn.calls = false) : Makes s turn p []

/-- The protocol with the reports that have been made in the current iteration. -/
structure Recorded where
  protocol : Signalled
  reports : Nat → List WorkReport := fun _ => []

namespace Recorded

def initial (s : State) : Recorded where
  protocol := { core := { state := s } }

/-- The record after a turn that makes some reports of one block. -/
def add (σ : Recorded) (protocol : Signalled) (position : Nat) (made : List WorkReport) :
    Recorded :=
  ⟨protocol, Function.update σ.reports position (σ.reports position ++ made)⟩

/-- A turn with the reports that it makes; an iteration starts without any. -/
inductive Step (σ : Recorded) : Turn → Recorded → Prop
  | begin {protocol : Signalled} (step : Signalled.Step σ.protocol (.move .begin) protocol) :
      Step σ (.move .begin) { protocol }
  | turn {turn : Turn} {protocol : Signalled} {p : Nat} {made : List WorkReport}
      (step : Signalled.Step σ.protocol turn protocol) (within : turn ≠ .move .begin)
      (makes : Makes σ.protocol.state turn p made) : Step σ turn (σ.add protocol p made)

/-- A recorded step is one of the protocol. -/
theorem Step.protocol {σ σ' : Recorded} {turn : Turn} (step : Step σ turn σ') :
    Signalled.Step σ.protocol turn σ'.protocol := by
  cases step with
  | begin step => exact step
  | turn step _ _ => exact step

/-- The position of the last block. -/
def last (σ : Recorded) : Nat :=
  σ.protocol.state.front.length

/-- The report with which the block at a position has been left. -/
def final (σ : Recorded) (position : Nat) : Option WorkReport :=
  (σ.reports position).find? (WorkReport.leaves (position == σ.last))

/-- The blocks before a position have been left, and no other. -/
structure Before (σ : Recorded) (position : Nat) : Prop where
  within : position ≤ σ.last
  left : ∀ q < position, ∃ r, σ.final q = some r
  stays : ∀ q, position ≤ q → σ.final q = none

/-- All blocks have been left, the last one with a report. -/
structure Past (σ : Recorded) (r : WorkReport) : Prop where
  left : ∀ q < σ.last, ∃ r, σ.final q = some r
  final : σ.final σ.last = some r

/-- The reports so far agree with where the executor stands. -/
structure Follows (σ : Recorded) : Prop where
  running : ∀ p, σ.protocol.state.pc = .run p → σ.Before p
  waiting : σ.protocol.state.waiting = true → ∃ r, σ.Past r ∧ r.ret = .ok ∧
    (r.calledBack = true ∧ (∃ index q, σ.protocol.state.Awaits index q) ∨
      r.calledBack = false ∧ Forsaken σ.protocol.state)
  committing : σ.protocol.state.pc = .commit → ∃ r, σ.Past r ∧ ¬ r.Silent

end Recorded

/-! ## What a turn does to the executor -/

namespace State

/-- The blocks of a protocol stay. -/
theorem length_front {s s' : State} {move : Move} (step : Step s move s') :
    s'.front.length = s.front.length := by
  cases effect_of_step step with
  | moved front _ _ _ _ _ => rw [front]
  | refused _ same => rw [same]; rfl
  | calledFront _ p b inference _ calls =>
      obtain ⟨after, rfl, _⟩ := callFront_spec calls
      exact List.length_set
  | calledLast _ inference _ _ calls =>
      obtain ⟨after, rfl⟩ := callLast_spec calls
      rfl
  | advanced _ _ _ _ front _ _ _ _ _ => rw [front]

/-- Where a move without a call leads to, and where it comes from. -/
structure Quiet (s s' : State) : Prop where
  running : ∀ p, s'.pc = .run p → s.pc = .run p
  waiting : s'.waiting = true → s.waiting = true ∧
    ∀ index q, s.Awaits index q → ∃ q', s'.Awaits index q'
  committing : s'.pc = .commit → s.pc = .commit ∨ s.waiting = true ∧ s.ready = true

private theorem Quiet.of_request {s s' : State} {index : Nat} {q : Submission}
    {stage : RequestStage} (present : s.submissions[index]? = some q) (pc : s'.pc = s.pc)
    (pass : s'.pass = s.pass)
    (submissions : s'.submissions = (s.advance index q stage).submissions) : Quiet s s' := by
  have waiting : s'.waiting = s.waiting := by rw [State.waiting, State.waiting, pc]
  refine ⟨fun p there => pc ▸ there, fun waits => ⟨waiting ▸ waits, fun j q₀ awaits => ?_⟩,
    fun there => Or.inl (pc ▸ there)⟩
  obtain ⟨q', listed, same⟩ := exists_getElem?_advance stage present awaits.present
  exact ⟨q', waits, submissions ▸ listed, by rw [same, awaits.own, pass]⟩

private theorem quiet_of_step {s s' : State} {move : Move} (step : Step s move s')
    (quiet : move.calls = false) (within : move ≠ .begin) : Quiet s s' := by
  have inside {pc : Pc} {holder : Option Holder} (waits : s.waiting = true)
      (stays : ({ s with pc } : State).waiting = true) : Quiet s { s with pc, holder } := by
    refine ⟨fun p there => ?_, fun _ => ⟨waits, fun index q awaits =>
      ⟨q, stays, awaits.present, awaits.own⟩⟩, fun there => ?_⟩
    · cases there
      cases stays
    · cases there
      cases stays
  cases transits_of_step step with
  | begin _ => exact (within rfl).elim
  | passOver _ | refuseFront _ | refuseLast _ | inferFront _ _ _ | inferLast _ _ _ => cases quiet
  | acquire here _ | asleep here _ | wake here =>
      exact inside (by rw [State.waiting, here]) rfl
  -- Only a test that finds the flag set leads to the commit phase.
  | passes here set =>
      have waited : s.waiting = true := by rw [State.waiting, here]
      refine ⟨fun p there => ?_, fun waits => ?_, fun _ => Or.inr ⟨waited, set⟩⟩
      · cases there
      · cases waits
  | post _ =>
      refine ⟨fun p there => ?_, fun waits => ?_, fun there => ?_⟩
      · cases there
      · cases waits
      · cases there
  | execute present _ | complete present _ => exact .of_request present rfl rfl rfl
  | callback present calls =>
      cases callbackStep_of_next calls <;> exact .of_request present rfl rfl rfl

private theorem pc_cases (s : State) :
    s.pc = .gate ∨ (∃ p, s.pc = .run p) ∨ s.waiting = true ∨ s.pc = .commit := by
  unfold waiting
  cases s.pc <;> simp

/-- Without a call the executor stays before a block. -/
theorem pc_of_running {s s' : State} {move : Move} {p : Nat} (step : Step s move s')
    (quiet : move.calls = false) (here : s.pc = .run p) : s'.pc = .run p := by
  have elsewhere {pc : Pc} {P : Prop} (there : s.pc = pc) (other : pc ≠ .run p) : P :=
    (other (there.symm.trans here)).elim
  cases transits_of_step step with
  | begin there | acquire there _ | asleep there _ | passes there _ | wake there | post there =>
      exact elsewhere there Pc.noConfusion
  | passOver _ | refuseFront _ | refuseLast _ | inferFront _ _ _ | inferLast _ _ _ => cases quiet
  | execute _ _ | complete _ _ => exact here
  | callback _ calls => cases callbackStep_of_next calls <;> exact here

end State

private theorem pc_of_begin {s s' : State} (step : Step s .begin s') : s'.pc = .run 0 := by
  obtain ⟨_, same⟩ := Option.ite_none_right_eq_some.mp step
  cases same
  rfl

/-- Which block a call is made of. -/
theorem step_passOver {s s' : State} (step : Step s .passOver s') :
    ∃ p, s.pc = .run p ∧ p < s.front.length ∧ s'.pc = .run (p + 1) := by
  unfold Step next at step
  simp only at step
  split at step
  · rename_i p here
    obtain ⟨other, same⟩ := Option.ite_none_right_eq_some.mp step
    cases same
    exact ⟨p, here, (List.getElem?_eq_some_iff.mp other).1, rfl⟩
  · cases step

private theorem step_refuse {s s' : State} (step : Step s .refuse s') : ∃ p, s.pc = .run p ∧
    (p < s.front.length ∧ s' = s ∨ s.front.length ≤ p ∧ s' = s.refuseLast) := by
  unfold Step next at step
  simp only at step
  split at step
  · rename_i p here
    refine ⟨p, here, ?_⟩
    split at step
    · cases step
    · rename_i present
      cases step
      exact Or.inl ⟨(List.getElem?_eq_some_iff.mp present).1, rfl⟩
    · rename_i beyond
      cases step
      exact Or.inr ⟨List.getElem?_eq_none_iff.mp beyond, rfl⟩
  · cases step

/-- The last block submits the request that the executor then waits for. -/
theorem awaits_of_callLast {s s' : State} {inference : Inference}
    (calls : s.callLast inference = some s') (taken : TakenOn s inference) :
    ∃ index q, s'.Awaits index q := by
  have added := s.submission_of_accepted s.front.length
    (show s.installed.model.async = true from taken.1) taken.2
  obtain ⟨after, rfl⟩ := State.callLast_spec calls
  rw [added]
  exact ⟨s.submissions.length, _, rfl, List.getElem?_concat_length, rfl⟩

private theorem length_le_of_atLast {s : State} {p : Nat} (here : s.pc = .run p)
    (atLast : s.atLast = true) : s.front.length ≤ p := by
  rw [State.atLast, here] at atLast
  exact List.getElem?_eq_none_iff.mp (of_decide_eq_true atLast)

private theorem Signalled.length_front {s s' : Signalled} {turn : Turn}
    (step : Signalled.Step s turn s') : s'.state.front.length = s.state.front.length := by
  cases turn with
  | move move => exact State.length_front (Scoped.step_move step.1).2.1
  | retry =>
      obtain ⟨_, _, same⟩ := Scoped.step_retry step.1
      rw [Signalled.state, same]
      rfl
  | leave =>
      obtain ⟨_, same⟩ := Scoped.step_leave step.1
      rw [Signalled.state, same]

/-! ## What a turn adds to the record -/

namespace Recorded

variable {σ : Recorded} {protocol : Signalled} {p : Nat} {made : List WorkReport}

private theorem final_add (length : protocol.state.front.length = σ.last) (q : Nat) :
    (σ.add protocol p made).final q =
      if q = p then (σ.final p).or (made.find? (WorkReport.leaves (p == σ.last)))
      else σ.final q := by
  have unfolded : (σ.add protocol p made).final q =
      (Function.update σ.reports p (σ.reports p ++ made) q).find?
        (WorkReport.leaves (q == protocol.state.front.length)) := rfl
  rw [unfolded, length]
  split
  · rename_i same
    subst same
    rw [Function.update_self, List.find?_append]
    rfl
  · rename_i other
    rw [Function.update_of_ne other]
    rfl

private theorem final_add_of_ne (length : protocol.state.front.length = σ.last) {q : Nat}
    (other : q ≠ p) : (σ.add protocol p made).final q = σ.final q := by
  rw [final_add length, if_neg other]

/-- A report that does not leave the inner loop, or none at all, leaves no block. -/
theorem final_add_of_stays (length : protocol.state.front.length = σ.last)
    (stays : made.find? (WorkReport.leaves (p == σ.last)) = none) (q : Nat) :
    (σ.add protocol p made).final q = σ.final q := by
  rw [final_add length, stays, Option.or_none]
  split
  · rename_i same
    rw [same]
  · rfl

/-- A call after which a block is called again leaves no block. -/
theorem Before.stay {q : Nat} (before : σ.Before q) (length : protocol.state.front.length = σ.last)
    (stays : made.find? (WorkReport.leaves (p == σ.last)) = none) :
    (σ.add protocol p made).Before q := by
  have same := final_add_of_stays length stays
  refine ⟨Nat.le_trans before.within (Nat.le_of_eq length.symm), fun other below => ?_,
    fun other above => ?_⟩
  · rw [same]
    exact before.left other below
  · rw [same]
    exact before.stays other above

/-- No call takes back that all blocks have been left. -/
theorem Past.stay {r : WorkReport} (past : σ.Past r)
    (length : protocol.state.front.length = σ.last)
    (stays : made.find? (WorkReport.leaves (p == σ.last)) = none) :
    (σ.add protocol p made).Past r := by
  have same := final_add_of_stays length stays
  have atEnd : (σ.add protocol p made).last = σ.last := length
  refine ⟨fun other below => ?_, ?_⟩
  · rw [same]
    exact past.left other (atEnd ▸ below)
  · rw [same, atEnd]
    exact past.final

/-- The block before which the executor stands is left. -/
theorem Before.next {r : WorkReport} (before : σ.Before p) (below : p < σ.last)
    (length : protocol.state.front.length = σ.last)
    (leaves : made.find? (WorkReport.leaves false) = some r) :
    (σ.add protocol p made).Before (p + 1) := by
  have inner : (p == σ.last) = false := beq_eq_false_iff_ne.mpr (Nat.ne_of_lt below)
  refine ⟨Nat.le_trans below (Nat.le_of_eq length.symm), fun q behind => ?_, fun q above => ?_⟩
  · rw [final_add length, inner, leaves, before.stays p (Nat.le_refl p)]
    split
    · exact ⟨r, rfl⟩
    · exact before.left q (by omega)
  · rw [final_add_of_ne length (by omega)]
    exact before.stays q (by omega)

/-- The last block is left. -/
theorem Before.past {r : WorkReport} (before : σ.Before p) (atLast : p = σ.last)
    (length : protocol.state.front.length = σ.last)
    (leaves : made.find? (WorkReport.leaves true) = some r) :
    (σ.add protocol p made).Past r := by
  subst atLast
  have atEnd : (σ.add protocol σ.last made).last = σ.last := length
  refine ⟨fun q below => ?_, ?_⟩
  · rw [atEnd] at below
    rw [final_add_of_ne length (Nat.ne_of_lt below)]
    exact before.left q below
  · rw [atEnd, final_add length, if_pos rfl, beq_self_eq_true, leaves,
      before.stays _ (Nat.le_refl _)]
    rfl

/-- An executor inside the chain has left the blocks before the one it stands at. -/
theorem Follows.of_running (here : σ.protocol.state.pc = .run p) (before : σ.Before p) :
    σ.Follows := by
  refine ⟨fun q there => ?_, fun absurd => ?_, fun absurd => ?_⟩
  · cases here.symm.trans there
    exact before
  · rw [State.waiting, here] at absurd
    cases absurd
  · cases here.symm.trans absurd

private theorem Follows.of_committing {r : WorkReport} (here : σ.protocol.state.pc = .commit)
    (past : σ.Past r) (called : ¬ r.Silent) : σ.Follows := by
  refine ⟨fun q absurd => ?_, fun absurd => ?_, fun _ => ⟨r, past, called⟩⟩
  · cases here.symm.trans absurd
  · rw [State.waiting, here] at absurd
    cases absurd

private theorem Follows.of_waiting {r : WorkReport} (here : σ.protocol.state.waiting = true)
    (past : σ.Past r) (code : r.ret = .ok)
    (awaits : r.calledBack = true ∧ (∃ index q, σ.protocol.state.Awaits index q) ∨
      r.calledBack = false ∧ Forsaken σ.protocol.state) : σ.Follows := by
  refine ⟨fun q absurd => ?_, fun _ => ⟨r, past, code, awaits⟩, fun absurd => ?_⟩
  · rw [State.waiting, absurd] at here
    cases here
  · rw [State.waiting, absurd] at here
    cases here

private theorem not_silent_of_calledBack {r : WorkReport} (called : r.calledBack = true) :
    ¬ r.Silent :=
  fun silent => Bool.false_ne_true (silent.2.symm.trans called)

/-- A turn without a call. -/
theorem Follows.quiet (follows : σ.Follows) {turn : Turn}
    (step : Signalled.Step σ.protocol turn protocol) (quiet : turn.calls = false)
    (within : turn ≠ .move .begin) : (σ.add protocol p []).Follows := by
  have length : protocol.state.front.length = σ.last := Signalled.length_front step
  cases turn with
  | retry => cases quiet
  | leave =>
      obtain ⟨core, notified⟩ := protocol
      obtain ⟨_, same⟩ := Scoped.step_leave step.1
      cases same
      refine ⟨fun q here => (follows.running q here).stay length List.find?_nil, fun waits => ?_,
        fun commits => ?_⟩
      · obtain ⟨r, past, rest⟩ := follows.waiting waits
        exact ⟨r, past.stay length List.find?_nil, rest⟩
      · obtain ⟨r, past, called⟩ := follows.committing commits
        exact ⟨r, past.stay length List.find?_nil, called⟩
  | move move =>
      have moved := (Scoped.step_move step.1).2.1
      have onward := State.quiet_of_step moved quiet fun absurd => within (congrArg _ absurd)
      refine ⟨fun q here => (follows.running q (onward.running q here)).stay length List.find?_nil,
        fun waits => ?_, fun commits => ?_⟩
      · obtain ⟨waited, kept⟩ := onward.waiting waits
        obtain ⟨r, past, code, awaits⟩ := follows.waiting waited
        refine ⟨r, past.stay length List.find?_nil, code, ?_⟩
        rcases awaits with ⟨called, index, q, awaits⟩ | ⟨silent, forsaken⟩
        · exact Or.inl ⟨called, index, kept index q awaits⟩
        · exact Or.inr ⟨silent, forsaken.step moved⟩
      · rcases onward.committing commits with committed | ⟨waited, set⟩
        · obtain ⟨r, past, called⟩ := follows.committing committed
          exact ⟨r, past.stay length List.find?_nil, called⟩
        · obtain ⟨r, past, _, awaits⟩ := follows.waiting waited
          refine ⟨r, past.stay length List.find?_nil, ?_⟩
          rcases awaits with ⟨called, _⟩ | ⟨_, forsaken⟩
          · exact not_silent_of_calledBack called
          · rw [forsaken.unset] at set
            cases set

/-- Reports that do not leave a block before the last one. -/
theorem leaves_of_refused {b : TritonBlock} {r : WorkReport} (reported : b.Reported none r)
    (isLast : Bool) : r.leaves isLast = isLast ∧ ¬ r.Silent := by
  rcases reported.1 with code | code
  all_goals
    refine ⟨by rw [WorkReport.leaves, code], fun silent => ?_⟩
    rcases silent.1 with absurd | absurd <;> rw [code] at absurd <;> cases absurd

/-- A hierarchical block is passed over without a report. -/
theorem Follows.passOver (follows : σ.Follows)
    (step : Signalled.Step σ.protocol (.move .passOver) protocol)
    (makes : Makes σ.protocol.state (.move .passOver) p made) :
    (σ.add protocol p made).Follows := by
  have length : protocol.state.front.length = σ.last := Signalled.length_front step
  obtain ⟨q, here, below, there⟩ := step_passOver (Scoped.step_move step.1).2.1
  cases makes with
  | quiet absurd => cases absurd
  | @passOver _ earlier r here' stays leaves =>
      cases here.symm.trans here'
      have first : (earlier ++ [r]).find? (WorkReport.leaves false) = some r := by
        rw [List.find?_append, List.find?_eq_none.mpr fun e member => by simp [stays e member],
          Option.none_or, List.find?_cons_of_pos leaves]
      exact .of_running there ((follows.running p here).next below length first)

/-- A report without an inference leaves a block or has it called again. -/
theorem Follows.refuse (follows : σ.Follows)
    (step : Signalled.Step σ.protocol (.move .refuse) protocol)
    (makes : Makes σ.protocol.state (.move .refuse) p made) : (σ.add protocol p made).Follows := by
  have length : protocol.state.front.length = σ.last := Signalled.length_front step
  obtain ⟨q, here, course⟩ := step_refuse (Scoped.step_move step.1).2.1
  cases makes with
  | quiet absurd => cases absurd
  | @refuse _ b r here' called reported =>
      cases here.symm.trans here'
      have before := follows.running p here
      rcases course with ⟨below, same⟩ | ⟨beyond, same⟩
      · -- The block is called again.
        have inner : (p == σ.last) = false := beq_eq_false_iff_ne.mpr (Nat.ne_of_lt below)
        refine .of_running (p := p) ((congrArg State.pc same).trans here) (before.stay length ?_)
        rw [inner, List.find?_cons_of_neg (by rw [(leaves_of_refused reported false).1]; decide),
          List.find?_nil]
      · obtain ⟨leaves, called⟩ := leaves_of_refused reported true
        have first : [r].find? (WorkReport.leaves true) = some r := List.find?_cons_of_pos leaves
        exact .of_committing (congrArg State.pc same)
          (before.past (Nat.le_antisymm before.within beyond) length first) called

/-- A rejected call of the last block has it called again. -/
theorem Follows.retry (follows : σ.Follows) (step : Signalled.Step σ.protocol .retry protocol)
    (makes : Makes σ.protocol.state .retry p made) : (σ.add protocol p made).Follows := by
  have length : protocol.state.front.length = σ.last := Signalled.length_front step
  obtain ⟨core, notified⟩ := protocol
  obtain ⟨_, atLast, same⟩ := Scoped.step_retry step.1
  cases same
  cases makes with
  | quiet absurd => cases absurd
  | @retry _ r code here other =>
      refine .of_running (p := p) here ((follows.running p here).stay length ?_)
      rw [List.find?_cons_of_neg (by rw [WorkReport.leaves, other]; exact Bool.false_ne_true),
        List.find?_nil]

/-- The report of an inference leaves its block. -/
theorem Follows.infer (follows : σ.Follows) (numbered : σ.protocol.state.Numbered)
    {inference : Inference} (step : Signalled.Step σ.protocol (.move (.infer inference)) protocol)
    (makes : Makes σ.protocol.state (.move (.infer inference)) p made) :
    (σ.add protocol p made).Follows := by
  have length : protocol.state.front.length = σ.last := Signalled.length_front step
  have moved := (Scoped.step_move step.1).2.1
  cases makes with
  | quiet absurd => cases absurd
  | @infer _ b _ r here' called reported =>
      have infers := @TritonCall.infers ⟨b, some inference, r, reported⟩ inference rfl
      have leaves (isLast : Bool) : [r].find? (WorkReport.leaves isLast) = some r :=
        List.find?_cons_of_pos (infers.leaves isLast)
      have before := follows.running p here'
      cases transits_of_step moved with
      | inferFront here present calls =>
          cases here.symm.trans here'
          obtain ⟨after, same, _⟩ := State.callFront_spec calls
          exact .of_running (congrArg State.pc same)
            (before.next (List.getElem?_eq_some_iff.mp present).1 length (leaves false))
      | inferLast here atLast calls =>
          cases here.symm.trans here'
          have beyond := length_le_of_atLast here atLast
          have block : b = σ.protocol.state.installed := by
            rw [State.called, List.getElem?_eq_none beyond] at called
            exact (Option.some.inj called).symm
          subst block
          have past := before.past (Nat.le_antisymm before.within beyond) length (leaves true)
          obtain ⟨after, same⟩ := State.callLast_spec calls
          refine .of_waiting (congrArg State.waiting same) past infers.code ?_
          have back : r.calledBack = true ↔ TakenOn σ.protocol.state inference := by
            rw [infers.called, Bool.and_eq_true, decide_eq_true_eq]
            exact Iff.rfl
          by_cases taken : TakenOn σ.protocol.state inference
          · exact Or.inl ⟨back.mpr taken, awaits_of_callLast calls taken⟩
          · exact Or.inr ⟨Bool.eq_false_iff.mpr fun absurd => taken (back.mp absurd),
              forsaken_of_not_takenOn numbered atLast moved taken⟩

/-- **The reports agree with where the executor stands**, whatever a turn does. -/
theorem Follows.step {σ' : Recorded} {turn : Turn} (follows : σ.Follows)
    (numbered : σ.protocol.state.Numbered) (step : Step σ turn σ') : σ'.Follows := by
  cases step with
  | @begin protocol step =>
      have here := pc_of_begin (Scoped.step_move step.1).2.1
      exact .of_running here ⟨Nat.zero_le _, fun q absurd => (Nat.not_lt_zero q absurd).elim,
        fun _ _ => rfl⟩
  | turn step within makes =>
      by_cases calls : turn.calls = true
      · cases turn with
        | leave => cases calls
        | retry => exact follows.retry step makes
        | move move =>
            cases move with
            | passOver => exact follows.passOver step makes
            | refuse => exact follows.refuse step makes
            | infer inference => exact follows.infer numbered step makes
            | _ => cases calls
      · rw [Bool.not_eq_true] at calls
        cases makes with
        | quiet _ => exact follows.quiet step calls within
        | _ => cases calls

/-- What holds of a protocol and its record along every run. -/
structure Sound (σ : Recorded) : Prop where
  protocol : σ.protocol.Sound
  follows : σ.Follows

/-- Every step keeps the record in agreement with the protocol. -/
theorem Sound.step {σ σ' : Recorded} {turn : Turn} (sound : σ.Sound) (step : Step σ turn σ') :
    σ'.Sound :=
  ⟨sound.protocol.step step.protocol,
    sound.follows.step sound.protocol.core.orderly.numbered step⟩

/-- Before the first iteration there is nothing to record. -/
theorem sound_initial {s : State} (start : Initial s) : (initial s).Sound := by
  have outside : s.waiting = false := by rw [State.waiting, start.pc]
  refine ⟨⟨(traced_initial start).sound, .of_running outside, fun _ _ _ _ _ asleep => ?_⟩,
    fun p here => ?_, fun waits => ?_, fun here => ?_⟩
  · cases start.pc.symm.trans asleep
  · cases start.pc.symm.trans here
  · exact (Bool.false_ne_true (outside.symm.trans waits)).elim
  · cases start.pc.symm.trans here

/-- The report with which the iteration leaves a block. -/
theorem final_eq {answers : Answers} (reports : answers.reports = σ.reports) (q : Nat) :
    answers.final (σ.last + 1) q = σ.final q := by
  have place : (q + 1 == σ.last + 1) = (q == σ.last) := by
    rw [Bool.eq_iff_iff, beq_iff_eq, beq_iff_eq]
    exact Nat.add_right_cancel_iff
  rw [Answers.final, reports, place]
  rfl

end Recorded

/-! ## What an iteration comes to -/

namespace Signalled

private theorem not_waitsForGood_of_canCommit {s : Signalled} (can : s.CanCommit) :
    ¬ s.WaitsForGood := by
  intro waits
  obtain ⟨later, s', run, _, there⟩ := can
  have stays := waits later s' run
  rw [State.waiting, there] at stays
  cases stays

private theorem not_canCommit_of_running {s : Signalled} {p : Nat} (here : s.state.pc = .run p) :
    ¬ s.CanCommit := by
  rintro ⟨later, s', run, quiet, there⟩
  have stays := run.invariant (fun s => s.state.pc = .run p) here fun t member step before => by
    have calls := (quiet t member).1
    cases label : t.label with
    | move move =>
        rw [label] at step calls
        exact State.pc_of_running (Scoped.step_move step.1).2.1 calls before
    | retry =>
        rw [label] at calls
        cases calls
    | leave =>
        rw [label] at step
        obtain ⟨_, same⟩ := Scoped.step_leave step.1
        rw [Signalled.state, same]
        exact before
  cases there.symm.trans stays.1

private theorem not_waitsForGood_of_running {s : Signalled} {p : Nat} (here : s.state.pc = .run p) :
    ¬ s.WaitsForGood := by
  intro waits
  have stays := waits [] s (.nil s)
  rw [State.waiting, here] at stays
  cases stays

end Signalled

/-- An iteration ends as the executor of a protocol stands. -/
structure Agrees (s : Signalled) (result : Except Abort Iteration) : Prop where
  returns : (∃ iteration, result = .ok iteration) ↔ s.CanCommit
  waits : (∃ events, result = .error ⟨.waiting, events⟩) ↔ s.WaitsForGood
  spins : (∃ events, result = .error ⟨.spinning, events⟩) ↔ ∃ p, s.state.pc = .run p

private theorem Agrees.of_canCommit {s : Signalled} (iteration : Iteration) (can : s.CanCommit) :
    Agrees s (.ok iteration) where
  returns := ⟨fun _ => can, fun _ => ⟨iteration, rfl⟩⟩
  waits := ⟨nofun, fun waits => (Signalled.not_waitsForGood_of_canCommit can waits).elim⟩
  spins := ⟨nofun, fun ⟨_, here⟩ => (Signalled.not_canCommit_of_running here can).elim⟩

private theorem Agrees.of_waitsForGood {s : Signalled} (events : List Event)
    (waits : s.WaitsForGood) : Agrees s (.error ⟨.waiting, events⟩) where
  returns := ⟨nofun, fun can => (Signalled.not_waitsForGood_of_canCommit can waits).elim⟩
  waits := ⟨fun _ => waits, fun _ => ⟨events, rfl⟩⟩
  spins := ⟨nofun, fun ⟨_, here⟩ => (Signalled.not_waitsForGood_of_running here waits).elim⟩

/-- An executor that stands inside the chain neither returns nor waits. -/
theorem Agrees.of_running {s : Signalled} {p : Nat} (events : List Event)
    (here : s.state.pc = .run p) : Agrees s (.error ⟨.spinning, events⟩) where
  returns := ⟨nofun, fun can => (Signalled.not_canCommit_of_running here can).elim⟩
  waits := ⟨nofun, fun waits => (Signalled.not_waitsForGood_of_running here waits).elim⟩
  spins := ⟨fun _ => ⟨p, here⟩, fun _ => ⟨events, rfl⟩⟩

/-- The group that the blocks of a protocol make up. -/
structure Stands (s : State) (g : Group) : Prop where
  length : g.blocks.length = s.front.length + 1
  equipped : GraphExecutor.Equipped g

section Ends

open GraphExecutor

variable {s : State} {σ : Recorded} {g : Group} {answers : Answers}
  {result : Except Abort Iteration}

private theorem lastWaits_iff (equipped : Equipped g) (length : g.blocks.length = σ.last + 1)
    (reports : answers.reports = σ.reports) :
    answers.LastWaits g ↔ ∃ r, σ.final σ.last = some r ∧ r.Silent := by
  unfold Answers.LastWaits
  rw [length, Nat.add_sub_cancel, Recorded.final_eq reports]
  constructor
  · rintro ⟨_, r, _, _, final, silent⟩
    exact ⟨r, final, silent⟩
  · rintro ⟨r, final, silent⟩
    have bound : σ.last < g.blocks.length := length ▸ Nat.lt_succ_self _
    refine ⟨g.blocks[σ.last], r, ?_, equipped.part _ (List.getElem_mem bound), final, silent⟩
    rw [List.getLast?_eq_getElem?, length, Nat.add_sub_cancel, List.getElem?_eq_getElem bound]

/-- An iteration whose executor is before a block goes on with an inner loop. -/
theorem Recorded.Before.ending {p : Nat} (before : σ.Before p) (equipped : Equipped g)
    (length : g.blocks.length = σ.last + 1) (reports : answers.reports = σ.reports)
    (ending : Ending answers g result) : ∃ events, result = .error ⟨.spinning, events⟩ := by
  cases ending with
  | returns iteration left _ =>
      obtain ⟨r, final⟩ := left p (length ▸ Nat.lt_succ_of_le before.within)
      rw [length, Recorded.final_eq reports, before.stays p (Nat.le_refl p)] at final
      cases final
  | spins events _ _ _ => exact ⟨events, rfl⟩
  | waits events silent =>
      obtain ⟨r, final, _⟩ := (lastWaits_iff equipped length reports).mp silent
      rw [before.stays _ before.within] at final
      cases final

/-- An iteration whose last block has been left returns, unless it waits. -/
theorem Recorded.Past.ending {r : WorkReport} (past : σ.Past r) (equipped : Equipped g)
    (length : g.blocks.length = σ.last + 1) (reports : answers.reports = σ.reports)
    (ending : Ending answers g result) :
    (¬ r.Silent ∧ ∃ iteration, result = .ok iteration) ∨
      r.Silent ∧ ∃ events, result = .error ⟨.waiting, events⟩ := by
  have silence := lastWaits_iff equipped length reports
  rw [past.final] at silence
  cases ending with
  | returns iteration _ called =>
      exact Or.inl ⟨fun silent => called (silence.mpr ⟨r, rfl, silent⟩), iteration, rfl⟩
  | spins events p bound stays =>
      rw [length, Recorded.final_eq reports] at stays
      rcases Nat.lt_or_eq_of_le (Nat.le_of_lt_succ (length ▸ bound)) with below | same
      · obtain ⟨other, final⟩ := past.left p below
        rw [stays] at final
        cases final
      · rw [same, past.final] at stays
        cases stays
  | waits events silent =>
      obtain ⟨other, final, silent⟩ := silence.mp silent
      cases final
      exact Or.inr ⟨silent, events, rfl⟩

/-- **The protocol and the iteration agree.** -/
theorem iteration_agrees {taken : List (Transition.Taken Recorded Turn)} (initial : Initial s)
    (run : Transition.Run Recorded.Step (Recorded.initial s) taken σ)
    (inside : σ.protocol.state.pc ≠ .gate) (stands : Stands s g)
    (reports : answers.reports = σ.reports) (reaches : passes answers g = true) :
    Agrees σ.protocol (runOneIteration answers g) := by
  have sound := run.invariant_of_step Recorded.Sound (Recorded.sound_initial initial)
    fun _ _ _ step sound => sound.step step
  have same := run.invariant_of_step (fun σ => σ.last = s.front.length) rfl
    fun _ _ _ step same => (Signalled.length_front step.protocol).trans same
  have length : g.blocks.length = σ.last + 1 := by rw [stands.length, same]
  have ending := ending_of_passes stands.equipped reaches
  rcases σ.protocol.state.pc_cases with here | ⟨p, here⟩ | waits | here
  · exact (inside here).elim
  · obtain ⟨events, spins⟩ :=
      (sound.follows.running p here).ending stands.equipped length reports ending
    rw [spins]
    exact .of_running events here
  · -- Either a request of this pass is on its way, or no callback has the flag of the pass.
    obtain ⟨r, past, code, awaits⟩ := sound.follows.waiting waits
    rcases awaits with ⟨called, index, q, awaits⟩ | ⟨uncalled, forsaken⟩
    · obtain ⟨_, iteration, returns⟩ := (past.ending stands.equipped length reports
        ending).resolve_right fun silent => Recorded.not_silent_of_calledBack called silent.1
      rw [returns]
      exact .of_canCommit iteration (Signalled.canCommit_of_awaits sound.protocol awaits)
    · obtain ⟨_, events, waits⟩ := (past.ending stands.equipped length reports
        ending).resolve_left fun called => called.1 ⟨Or.inl code, uncalled⟩
      rw [waits]
      exact .of_waitsForGood events (Signalled.waitsForGood_of_forsaken forsaken)
  · obtain ⟨r, past, called⟩ := sound.follows.committing here
    obtain ⟨_, iteration, returns⟩ := (past.ending stands.equipped length reports
      ending).resolve_right fun silent => called silent.1
    rw [returns]
    exact .of_canCommit iteration
      ⟨[], σ.protocol, .nil _, fun _ absurd => (List.not_mem_nil absurd).elim, here⟩

end Ends

/-! ## One inference -/

/-- The only block makes an inference, and the client behaves as `outcome` says. -/
def recorded (outcome : ClientOutcome) : Answers where
  reports := Function.update (fun _ => []) 0 [(Stage.addCall outcome).report]

private theorem exists_recorded (outcome : ClientOutcome) :
    ∃ taken σ, Transition.Run Recorded.Step (Recorded.initial (alone Stage.adder)) taken σ ∧
      σ.protocol.state.waiting = true ∧ σ.reports = (recorded outcome).reports := by
  have works : (Stage.adder.work (Stage.adding outcome).inBufs (Stage.adding outcome).outBufs
      (Stage.adding outcome).noutputItems (Stage.adding outcome).outcome).isSome = true := by
    cases outcome <;> decide +kernel
  obtain ⟨begun, waits, run, last, waiting, _, _⟩ := exists_run_alone works
  have begin : Step (alone Stage.adder) .begin begun := run.step_of_mem _ List.mem_cons_self
  have infer : Step begun (.infer (Stage.adding outcome)) waits :=
    run.step_of_mem _ (List.mem_cons_of_mem _ List.mem_cons_self)
  have called : begun.called 0 = some begun.installed := by
    rw [State.called, List.length_eq_zero_iff.mp (State.length_front begin)]
    rfl
  have reported : begun.installed.Reported (some (Stage.adding outcome))
      (Stage.addCall outcome).report := by
    apply TritonBlock.reported_of_works
    · rw [State.installed, last, TritonBlock.isSome_work_setAsyncCallback]
      exact works
    · rfl
    · rw [State.installed, last]
      rfl
    · exact fun _ => ⟨rfl, rfl⟩
  have first : Recorded.Step (Recorded.initial (alone Stage.adder)) (.move .begin)
      (Recorded.initial begun) := .begin ⟨Scoped.step_of_moved rfl begin, rfl⟩
  have second : Recorded.Step (Recorded.initial begun) (.move (.infer (Stage.adding outcome)))
      ((Recorded.initial begun).add { core := { state := waits } } 0
        [(Stage.addCall outcome).report]) :=
    .turn ⟨Scoped.step_of_moved rfl infer, rfl⟩
      (fun absurd => Move.noConfusion (Turn.move.inj absurd))
      (.infer (pc_of_begin begin) called reported)
  exact ⟨_, _, .cons first (.single second), waiting, rfl⟩

private theorem stands_adder : Stands (alone Stage.adder) (twoInputs 4 4) := by
  have inputs : ∀ b ∈ (twoInputs 4 4).blocks, ∀ w ∈ b.inputs, w.bufp.isSome = true := by decide
  have outputs : ∀ b ∈ (twoInputs 4 4).blocks, ∀ w ∈ b.outputs, w.bufp.isSome = true := by decide
  refine ⟨rfl, fun b member => ?_, fun b atEnd => ?_, rfl, rfl, fun p i w port => ?_,
    fun p i w port => ?_⟩
  · cases List.mem_singleton.mp member
    rfl
  · cases atEnd
    rfl
  · obtain ⟨b, present, listed⟩ := Option.bind_eq_some_iff.mp port
    exact inputs b (List.mem_of_getElem? present) w (List.mem_of_getElem? listed)
  · obtain ⟨b, present, listed⟩ := Option.bind_eq_some_iff.mp port
    exact outputs b (List.mem_of_getElem? present) w (List.mem_of_getElem? listed)

/-- An accepted request is waited for and the iteration returns, a rejected one is waited
for for good. -/
theorem recorded_inference_agrees :
    (∃ taken σ, Transition.Run Recorded.Step (Recorded.initial (alone Stage.adder)) taken σ ∧
      σ.protocol.CanCommit ∧
      Agrees σ.protocol (GraphExecutor.runOneIteration (recorded .success) (twoInputs 4 4))) ∧
    ∃ taken σ, Transition.Run Recorded.Step (Recorded.initial (alone Stage.adder)) taken σ ∧
      σ.protocol.WaitsForGood ∧
      Agrees σ.protocol (GraphExecutor.runOneIteration (recorded .callError) (twoInputs 4 4)) := by
  have inside {s : State} (waits : s.waiting = true) : s.pc ≠ .gate := by
    intro absurd
    rw [State.waiting, absurd] at waits
    cases waits
  constructor
  · obtain ⟨taken, σ, run, waits, reports⟩ := exists_recorded .success
    have agrees := iteration_agrees (initial_alone _) run (inside waits) stands_adder
      reports.symm rfl
    exact ⟨taken, σ, run, agrees.returns.mp ⟨_, rfl⟩, agrees⟩
  · obtain ⟨taken, σ, run, waits, reports⟩ := exists_recorded .callError
    have agrees := iteration_agrees (initial_alone _) run (inside waits) stands_adder
      reports.symm rfl
    exact ⟨taken, σ, run, agrees.waits.mp ⟨_, rfl⟩, agrees⟩

end Protocol

end TorchDsp
