import TorchDsp.Protocol.Basic

/-! # The wait for the last block

The executor waits whenever `do_work` of the last block returns `OK`. Somebody
will set the flag exactly when the client took on the request of the pass: the
last block is asynchronous and `AsyncInfer` returned no error
(`TorchDsp.Protocol.waits_for_one_iff`). Otherwise the executor never gets past
its wait (`TorchDsp.Protocol.Forsaken.run`), which is where an iteration of
`TorchDsp.Executor.Waiting` ends.
-/

namespace TorchDsp

namespace Protocol

namespace State

/-- The request at an index is the only one that carries the callback of the
current pass. -/
structure Sole (s : State) (i : Nat) (q : Submission) : Prop where
  present : s.submissions[i]? = some q
  callback : q.callback = .pass s.pass
  only : ∀ (j : Nat) (q' : Submission), s.submissions[j]? = some q' →
    q'.callback = .pass s.pass → j = i

/-- While the flag of the pass is false, exactly one accepted request carries the
callback of this pass, and it has not set the flag. -/
def WaitsForOne (s : State) : Prop :=
  s.waiting = true → s.ready = false → ∃ i q, s.Sole i q ∧ q.stage.hasSet = false

/-- Only the last block ever gets a callback, and passes are numbered upwards. -/
structure Numbered (s : State) : Prop where
  front : ∀ b, some b ∈ s.front → b.callback = .nothing
  past : ∀ q ∈ s.submissions, ∀ n, q.callback = .pass n → n ≤ s.pass

/-- The executor at its wait has the request of its pass, and the flag says
whether the callback has set it. -/
def Accompanied (s : State) : Prop :=
  s.waiting = true → ∃ i q, s.Sole i q ∧ s.ready = q.stage.hasSet

private theorem Accompanied.waitsForOne {s : State} (accompanied : s.Accompanied) :
    s.WaitsForOne := by
  intro waiting unset
  obtain ⟨i, q, sole, flag⟩ := accompanied waiting
  exact ⟨i, q, sole, flag.symm.trans unset⟩

/-! ## Invariants -/

/-- Every step keeps the passes numbered upwards. -/
theorem Numbered.step {s s' : State} {move : Move} (numbered : s.Numbered)
    (step : Step s move s') : s'.Numbered := by
  cases effect_of_step step with
  | moved front pass _ submissions _ _ =>
      exact ⟨by rw [front]; exact numbered.front, by
        rw [submissions, pass]; exact numbered.past⟩
  | refused _ same =>
      subst same
      exact ⟨numbered.front, fun q member n callback =>
        Nat.le_succ_of_le (numbered.past q member n callback)⟩
  | calledFront _ p b inference present calls =>
      obtain ⟨after, rfl, callback⟩ := callFront_spec calls
      have quiet : b.callback = .nothing := numbered.front b (List.mem_of_getElem? present)
      refine ⟨fun other member => ?_, fun q member n own => ?_⟩
      · rcases List.mem_or_eq_of_mem_set member with old | same
        · exact numbered.front other old
        · cases same
          exact callback.trans quiet
      · rcases List.mem_append.mp member with old | new
        · exact numbered.past q old n own
        · rw [callback_of_mem_submission new, quiet] at own
          cases own
  | calledLast _ inference _ _ calls =>
      obtain ⟨after, rfl⟩ := callLast_spec calls
      refine ⟨numbered.front, fun q member n own => ?_⟩
      rcases List.mem_append.mp member with old | new
      · exact Nat.le_succ_of_le (numbered.past q old n own)
      · rw [callback_of_mem_submission new] at own
        cases own
        exact Nat.le_refl _
  | advanced index q stage present front pass _ submissions _ _ =>
      refine ⟨by rw [front]; exact numbered.front, fun other member n own => ?_⟩
      rw [pass]
      rw [submissions] at member
      rcases List.mem_or_eq_of_mem_set member with old | same
      · exact numbered.past other old n own
      · subst same
        exact numbered.past q (List.mem_of_getElem? present) n own

end State

/-- The client takes on the request that the last block's `work` makes. -/
def TakenOn (s : State) (inference : Inference) : Prop :=
  s.last.model.async = true ∧ inference.outcome ≠ .callError

private theorem submission_of_not_takenOn {s : State} {inference : Inference}
    (refused : ¬ TakenOn s inference) :
    s.submission s.front.length s.installed inference = [] := by
  apply if_neg
  rw [Bool.and_eq_true, decide_eq_true_eq]
  exact refused

/-- The executor waits, and no request in flight carries the callback of its
pass. -/
structure Forsaken (s : State) : Prop where
  waiting : s.waiting = true
  unset : s.ready = false
  alone : ∀ q ∈ s.submissions, q.callback ≠ .pass s.pass

private theorem Forsaken.not_waitsForOne {s : State} (forsaken : Forsaken s) : ¬ s.WaitsForOne := by
  intro waitsForOne
  obtain ⟨i, q, sole, _⟩ := waitsForOne forsaken.waiting forsaken.unset
  exact forsaken.alone q (List.mem_of_getElem? sole.present) sole.callback

/-- Nothing that can happen brings a forsaken executor its callback. -/
theorem Forsaken.step {s s' : State} {move : Move} (forsaken : Forsaken s)
    (step : Step s move s') : Forsaken s' := by
  have busy {P : Prop} (running : s.waiting = false) : P :=
    (Bool.false_ne_true (running.symm.trans forsaken.waiting)).elim
  cases effect_of_step step with
  | moved _ pass ready submissions _ stays =>
      refine ⟨stays forsaken.waiting forsaken.unset, ready.trans forsaken.unset, ?_⟩
      rw [submissions, pass]
      exact forsaken.alone
  | refused running => exact busy running
  | calledFront running => exact busy running
  | calledLast running => exact busy running
  | advanced index q stage present _ pass waiting submissions foreign _ =>
      have elsewhere := forsaken.alone q (List.mem_of_getElem? present)
      refine ⟨waiting.trans forsaken.waiting, (foreign elsewhere).trans forsaken.unset, ?_⟩
      intro other member
      rw [pass]
      rw [submissions] at member
      rcases List.mem_or_eq_of_mem_set member with old | same
      · exact forsaken.alone other old
      · subst same
        exact elsewhere

/-- **A forsaken executor waits for good**, whatever the server and the client
threads do. -/
theorem Forsaken.run {s s' : State} {taken : List (Transition.Taken State Move)}
    (forsaken : Forsaken s) (run : Transition.Run Step s taken s') : Forsaken s' :=
  run.invariant_of_step Forsaken forsaken fun _ _ _ step holds => holds.step step

/-- A call that the client does not take on leaves the executor forsaken. -/
theorem forsaken_of_not_takenOn {s s' : State} {inference : Inference} (numbered : s.Numbered)
    (atLast : s.atLast = true) (step : Step s (.infer inference) s')
    (refused : ¬ TakenOn s inference) : Forsaken s' := by
  rw [Step, next_infer_of_atLast inference atLast] at step
  obtain ⟨after, rfl⟩ := State.callLast_spec step
  refine ⟨rfl, rfl, fun q member own => ?_⟩
  rw [submission_of_not_takenOn refused, List.append_nil] at member
  exact Nat.not_succ_le_self _ (numbered.past q member _ own)

/-- A request that moves on is the sole one of the pass, or leaves it alone. -/
theorem State.Sole.advanced {s s' : State} {i index : Nat} {q moved : Submission}
    {stage : RequestStage} (sole : s.Sole i q) (present : s.submissions[index]? = some moved)
    (pass : s'.pass = s.pass)
    (submissions : s'.submissions = s.submissions.set index { moved with stage }) :
    index = i ∧ moved = q ∧ s'.Sole index { moved with stage } ∨
      moved.callback ≠ .pass s.pass ∧ s'.Sole i q := by
  have bound := (List.getElem?_eq_some_iff.mp present).1
  have only : ∀ (j : Nat) (q' : Submission), s'.submissions[j]? = some q' →
      q'.callback = .pass s'.pass → j = i := by
    intro j q' listed carries
    rw [pass] at carries
    rw [submissions] at listed
    by_cases same : index = j
    · subst same
      rw [List.getElem?_set_self bound] at listed
      cases listed
      exact sole.only index moved present carries
    · rw [List.getElem?_set_ne same] at listed
      exact sole.only j q' listed carries
  by_cases same : index = i
  · subst same
    have whole : moved = q := Option.some.inj (present.symm.trans sole.present)
    subst whole
    refine Or.inl ⟨rfl, rfl, ?_, ?_, only⟩
    · rw [submissions, List.getElem?_set_self bound]
    · rw [pass]
      exact sole.callback
  · refine Or.inr ⟨fun carries => same (sole.only index moved present carries), ?_, ?_, only⟩
    · rw [submissions, List.getElem?_set_ne same]
      exact sole.present
    · rw [pass]
      exact sole.callback

open State in
/-- One step keeps the executor accompanied when the client takes on what the
last block asks for. -/
theorem accompanied_step {s s' : State} {move : Move} (numbered : s.Numbered)
    (accompanied : s.Accompanied) (step : Step s move s')
    (takenOn : ∀ inference, move = .infer inference → s.atLast = true → TakenOn s inference) :
    s'.Accompanied := by
  cases effect_of_step step with
  | moved _ pass ready submissions waiting _ =>
      intro here
      obtain ⟨i, q, sole, flag⟩ := accompanied (waiting here)
      refine ⟨i, q, ⟨?_, ?_, ?_⟩, ready.trans flag⟩
      · rw [submissions]
        exact sole.present
      · rw [pass]
        exact sole.callback
      · rw [submissions, pass]
        exact sole.only
  | refused _ same =>
      subst same
      exact fun absurd => (Bool.false_ne_true absurd).elim
  | calledFront _ p b inference present calls =>
      obtain ⟨after, rfl, _⟩ := callFront_spec calls
      exact fun absurd => (Bool.false_ne_true absurd).elim
  | calledLast _ inference label atLast calls =>
      obtain ⟨after, rfl⟩ := callLast_spec calls
      obtain ⟨async, accepted⟩ := takenOn inference label atLast
      rw [s.submission_of_accepted s.front.length (show s.installed.model.async = true from async)
        accepted]
      intro _
      refine ⟨s.submissions.length, _, ⟨List.getElem?_concat_length, rfl, ?_⟩, rfl⟩
      intro j q' listed own
      -- Requests of earlier passes carry lower numbers.
      rcases Nat.lt_or_ge j s.submissions.length with earlier | later
      · rw [List.getElem?_append_left earlier] at listed
        have past := numbered.past q' (List.mem_of_getElem? listed) _ own
        exact (Nat.not_succ_le_self _ past).elim
      · have bound := (List.getElem?_eq_some_iff.mp listed).1
        rw [List.length_append, List.length_singleton] at bound
        omega
  | advanced index moved stage present front pass waiting submissions foreign own =>
      intro here
      rw [waiting] at here
      obtain ⟨i, q, sole, flag⟩ := accompanied here
      rcases sole.advanced present pass submissions with
        ⟨rfl, rfl, after⟩ | ⟨elsewhere, after⟩
      · exact ⟨index, _, after, own sole.callback here flag⟩
      · exact ⟨i, q, after, (foreign elsewhere).trans flag⟩

open State in
/-- **The wait for the last block.** -/
theorem waits_for_one_iff (s s' : State) (taken : List (Transition.Taken State Move))
    (initial : Initial s) (run : Transition.Run Step s taken s') :
    (∀ t ∈ taken, t.target.WaitsForOne) ↔
      ∀ t ∈ taken, ∀ inference, t.label = .infer inference → t.source.atLast = true →
        TakenOn t.source inference := by
  have start : s.Numbered := by
    refine ⟨initial.callbacks, fun q member => ?_⟩
    rw [initial.submissions] at member
    cases member
  have numbered := run.invariant Numbered start fun _ _ step numbered => numbered.step step
  constructor
  · intro waits t member inference label atLast
    by_contra refused
    have step := run.step_of_mem t member
    rw [label] at step
    exact (forsaken_of_not_takenOn (numbered.2 t member).1 atLast step refused).not_waitsForOne
      (waits t member)
  · intro takenOn
    have quiet : s.Accompanied := fun waiting => by
      rw [State.waiting, initial.pc] at waiting
      cases waiting
    have along := run.invariant (fun s => s.Numbered ∧ s.Accompanied) ⟨start, quiet⟩
      fun t member step holds => ⟨holds.1.step step,
        accompanied_step holds.1 holds.2 step (takenOn t member)⟩
    exact fun t member => (along.2 t member).2.2.waitsForOne

/-! ## A group of one block -/

def alone (b : TritonBlock) : State where
  front := []
  last := b

/-- A single block as it is constructed. -/
theorem initial_alone (b : TritonBlock) : Initial (alone b) :=
  ⟨fun _ absurd => (List.not_mem_nil absurd).elim, rfl, rfl⟩

/-- One iteration up to the wait. -/
theorem exists_run_alone {b : TritonBlock} {inference : Inference}
    (works : (b.work inference.inBufs inference.outBufs inference.noutputItems
      inference.outcome).isSome = true) :
    ∃ begun waits, Transition.Run Step (alone b)
        [⟨alone b, .begin, begun⟩, ⟨begun, .infer inference, waits⟩] waits ∧
      begun.last = b ∧ waits.waiting = true ∧ waits.ready = false ∧
      waits.submissions = begun.submission 0 begun.installed inference := by
  have begin : Step (alone b) .begin { alone b with pc := .run 0, iteration := 1 } := rfl
  rw [← b.isSome_work_setAsyncCallback (.pass 1)] at works
  obtain ⟨result, worked⟩ := Option.isSome_iff_exists.mp works
  have calls : State.callLast { alone b with pc := .run 0, iteration := 1 } inference = some _ :=
    congrArg (Option.map _) worked
  have infer : Step { alone b with pc := .run 0, iteration := 1 } (.infer inference) _ :=
    (next_infer_of_atLast inference rfl).trans calls
  exact ⟨_, _, .cons begin (.single infer), rfl, rfl, rfl, (State.submit_of_work worked).1⟩

/-- The callback of an accepted request is on its way. -/
theorem accepted_request_awaited : ∃ taken s, Transition.Run Step (alone Stage.adder) taken s ∧
    s.waiting = true ∧ ∀ t ∈ taken, t.target.WaitsForOne := by
  have works : (Stage.adder.work (Stage.adding .success).inBufs (Stage.adding .success).outBufs
      (Stage.adding .success).noutputItems (Stage.adding .success).outcome).isSome = true := by
    decide +kernel
  obtain ⟨begun, waits, run, last, waiting, _, _⟩ := exists_run_alone works
  refine ⟨_, waits, run, waiting, (waits_for_one_iff _ _ _ (initial_alone _) run).mpr ?_⟩
  intro t member inference label _
  rcases List.mem_cons.mp member with rfl | member
  · cases label
  · cases List.mem_singleton.mp member
    cases label
    refine ⟨?_, by decide⟩
    rw [last]
    rfl

/-- A synchronous block as the only one. -/
def syncAdder : TritonBlock :=
  { Stage.adder with model := { Stage.adder.model with async := false } }

/-- The executor waits although the client has been given no callback at all. -/
theorem synchronous_wait : ∃ taken s, Transition.Run Step (alone syncAdder) taken s ∧
    s.waiting = true ∧ s.ready = false ∧ s.submissions = [] ∧
    ¬ ∀ t ∈ taken, t.target.WaitsForOne := by
  have works : (syncAdder.work (Stage.adding .success).inBufs (Stage.adding .success).outBufs
      (Stage.adding .success).noutputItems (Stage.adding .success).outcome).isSome = true := by
    decide +kernel
  obtain ⟨begun, waits, run, last, waiting, unset, submitted⟩ := exists_run_alone works
  have none : waits.submissions = [] := by
    rw [submitted]
    apply if_neg
    rw [State.installed, last]
    exact Bool.false_ne_true
  refine ⟨_, waits, run, waiting, unset, none, fun waitsForOne => ?_⟩
  obtain ⟨i, q, sole, _⟩ := waitsForOne _ (List.mem_cons_of_mem _ List.mem_cons_self) waiting unset
  have present := sole.present
  rw [none] at present
  cases present

end Protocol

end TorchDsp
