import TorchDsp.Protocol.Waiting

/-! # The mutex of a pass

Under the mutex of a pass, a callback that has begun is done with the mutex and the
flag before the executor gets past its wait: what is left of it is the notification
(`TorchDsp.Protocol.State.Orderly.settled`). Every pass has at most one request, whose
callback is the only one to set its flag.
-/

namespace TorchDsp

namespace Protocol

namespace State

/-- A request after a step is the one that moved on or another one, as it was. -/
theorem getElem?_advance {s : State} {index j : Nat} {q q' : Submission} {stage : RequestStage}
    (listed : (s.advance index q stage).submissions[j]? = some q') :
    j = index ∧ q' = { q with stage } ∨ j ≠ index ∧ s.submissions[j]? = some q' := by
  rw [State.advance, List.getElem?_set] at listed
  split at listed
  · rename_i same
    obtain ⟨_, written⟩ := Option.ite_none_right_eq_some.mp listed
    exact Or.inl ⟨same.symm, (Option.some.inj written).symm⟩
  · rename_i other
    exact Or.inr ⟨Ne.symm other, listed⟩

/-- The requests of the passes are told apart, and what they have done agrees with the
mutex and the flag of the current pass. -/
structure Orderly (s : State) : Prop where
  numbered : s.Numbered
  unique : ∀ (i j : Nat) (q q' : Submission) (n : Nat), s.submissions[i]? = some q →
    s.submissions[j]? = some q' → q.callback = .pass n → q'.callback = .pass n → i = j
  /-- The flag tells whether the callback of the pass has set it. -/
  flag : s.waiting = true → ∀ (i : Nat) (q : Submission), s.submissions[i]? = some q →
    q.callback = .pass s.pass → s.ready = q.stage.hasSet
  /-- Inside its critical section, the callback of the pass holds the mutex. -/
  lock : s.waiting = true → ∀ (i : Nat) (q : Submission), s.submissions[i]? = some q →
    q.callback = .pass s.pass → q.stage = .locked ∨ q.stage = .assigned →
      s.holder = some (.callback i)
  testing : s.pc = .test → s.holder = some .executor
  /-- The callback of a pass that has been left is at most short of its notification. -/
  settled : ∀ (i : Nat) (q : Submission) (n : Nat), s.submissions[i]? = some q →
    q.callback = .pass n → s.alive n = false → q.stage = .unlocked ∨ q.stage = .finished

/-- While the executor runs, no pass exists. -/
theorem alive_of_running {s : State} (running : s.waiting = false) (n : Nat) :
    s.alive n = false := by
  rw [alive, running, Bool.false_and]

private theorem not_testing_of_running {s : State} (running : s.waiting = false) :
    s.pc ≠ .test := by
  intro here
  rw [waiting, here] at running
  cases running

/-- Outside a wait, moves of the executor that submit nothing keep the order. -/
theorem Orderly.running {s s' : State} (orderly : s.Orderly) (before : s.waiting = false)
    (after : s'.waiting = false) (front : s'.front = s.front) (pass : s.pass ≤ s'.pass)
    (submissions : s'.submissions = s.submissions) : s'.Orderly where
  numbered := ⟨front ▸ orderly.numbered.front, fun q member n own =>
    Nat.le_trans (orderly.numbered.past q (submissions ▸ member) n own) pass⟩
  unique := submissions ▸ orderly.unique
  flag := fun absurd => (Bool.false_ne_true (after.symm.trans absurd)).elim
  lock := fun absurd => (Bool.false_ne_true (after.symm.trans absurd)).elim
  testing := fun here => (not_testing_of_running after here).elim
  settled := fun i q n listed own _ =>
    orderly.settled i q n (submissions ▸ listed) own (alive_of_running before n)

/-- A request that is submitted outside a wait. -/
theorem getElem?_submitted {s : State} {position : Nat} {b : TritonBlock} {inference : Inference}
    {j : Nat} {q : Submission}
    (listed : (s.submissions ++ s.submission position b inference)[j]? = some q) :
    s.submissions[j]? = some q ∨
      j = s.submissions.length ∧ q.callback = b.callback ∧ q.stage = .queued := by
  rcases Nat.lt_or_ge j s.submissions.length with earlier | later
  · rw [List.getElem?_append_left earlier] at listed
    exact Or.inl listed
  · rw [List.getElem?_append_right later] at listed
    have member := List.mem_of_getElem? listed
    refine Or.inr ⟨?_, callback_of_mem_submission member, ?_⟩
    · have bound := (List.getElem?_eq_some_iff.mp listed).1
      unfold submission at bound
      split at bound
      · rw [List.length_singleton] at bound
        omega
      · cases bound
    · unfold submission at member
      split at member
      · cases List.mem_singleton.mp member
        rfl
      · cases member

/-- A call before the last block opens no pass. -/
theorem Orderly.inferFront {s s' : State} {p : Nat} {b : TritonBlock} {inference : Inference}
    (orderly : s.Orderly) (running : s.waiting = false) (present : s.front[p]? = some (some b))
    (step : Step s (.infer inference) s') (calls : s.callFront p b inference = some s') :
    s'.Orderly := by
  have numbered := orderly.numbered.step step
  obtain ⟨after, rfl, _⟩ := callFront_spec calls
  have quiet : b.callback = .nothing := orderly.numbered.front b (List.mem_of_getElem? present)
  -- A request that carries the callback of a pass is an earlier one.
  have earlier {j : Nat} {q : Submission} {n : Nat}
      (listed : (s.submissions ++ s.submission p b inference)[j]? = some q)
      (own : q.callback = .pass n) : s.submissions[j]? = some q := by
    rcases getElem?_submitted listed with old | ⟨_, callback, _⟩
    · exact old
    · rw [callback, quiet] at own
      cases own
  exact {
    numbered
    unique := fun i j q q' n listed listed' own own' =>
      orderly.unique i j q q' n (earlier listed own) (earlier listed' own') own own'
    flag := fun absurd => (Bool.false_ne_true absurd).elim
    lock := fun absurd => (Bool.false_ne_true absurd).elim
    testing := fun absurd => by cases absurd
    settled := fun i q n listed own _ =>
      orderly.settled i q n (earlier listed own) own (alive_of_running running n) }

/-- A call of the last block opens a pass, with a mutex and a flag of its own. -/
theorem Orderly.inferLast {s s' : State} {inference : Inference} (orderly : s.Orderly)
    (running : s.waiting = false) (step : Step s (.infer inference) s')
    (calls : s.callLast inference = some s') : s'.Orderly := by
  have numbered := orderly.numbered.step step
  obtain ⟨after, rfl⟩ := callLast_spec calls
  -- Earlier requests carry the numbers of earlier passes.
  have either {j : Nat} {q : Submission} {n : Nat}
      (listed : (s.submissions ++ s.submission s.front.length s.installed inference)[j]? = some q)
      (own : q.callback = .pass n) :
      s.submissions[j]? = some q ∧ n ≤ s.pass ∨
        j = s.submissions.length ∧ n = s.pass + 1 ∧ q.stage = .queued := by
    rcases getElem?_submitted listed with old | ⟨same, callback, stage⟩
    · exact Or.inl ⟨old, orderly.numbered.past q (List.mem_of_getElem? old) n own⟩
    · rw [callback] at own
      cases own
      exact Or.inr ⟨same, rfl, stage⟩
  refine ⟨numbered, ?_, ?_, ?_, ?_, ?_⟩
  · intro i j q q' n listed listed' own own'
    rcases either listed own with ⟨old, past⟩ | ⟨same, now, _⟩
    · rcases either listed' own' with ⟨old', _⟩ | ⟨_, now, _⟩
      · exact orderly.unique i j q q' n old old' own own'
      · omega
    · rcases either listed' own' with ⟨_, past⟩ | ⟨same', _, _⟩
      · omega
      · exact same.trans same'.symm
  · intro _ i q listed own
    rcases either listed own with ⟨_, past⟩ | ⟨_, _, stage⟩
    · exact (Nat.not_succ_le_self _ past).elim
    · rw [stage]
      rfl
  · intro _ i q listed own critical
    rcases either listed own with ⟨_, past⟩ | ⟨_, _, stage⟩
    · exact (Nat.not_succ_le_self _ past).elim
    · rw [stage] at critical
      rcases critical with absurd | absurd <;> cases absurd
  · intro absurd
    cases absurd
  · intro i q n listed own left
    rcases either listed own with ⟨old, _⟩ | ⟨_, now, _⟩
    · exact orderly.settled i q n old own (alive_of_running running n)
    · subst now
      rw [alive, beq_self_eq_true, Bool.and_true] at left
      cases left

/-- Moves of the executor inside a wait keep the order. -/
theorem Orderly.inside {s s' : State} {move : Move} {pc : Pc} {holder : Option Holder}
    (orderly : s.Orderly) (step : Step s move s') (before : s.waiting = true)
    (same : s' = { s with pc, holder }) (after : s'.waiting = true)
    (testing : pc = .test → holder = some .executor)
    (idle : holder = s.holder ∨ ∀ (i : Nat) (q : Submission), s.submissions[i]? = some q →
      q.callback = .pass s.pass → ¬ (q.stage = .locked ∨ q.stage = .assigned)) :
    s'.Orderly := by
  have numbered := orderly.numbered.step step
  subst same
  refine ⟨numbered, orderly.unique, fun _ => orderly.flag before, ?_, testing, ?_⟩
  · intro _ i q listed own critical
    rcases idle with same | none
    · exact same.trans (orderly.lock before i q listed own critical)
    · exact (none i q listed own critical).elim
  · intro i q n listed own left
    refine orderly.settled i q n listed own ?_
    rw [alive, before]
    rw [alive, after] at left
    exact left

/-- A request that moves on keeps the order, if its stage agrees with the mutex and the
flag that the step leaves. -/
theorem Orderly.advance {s s' : State} {move : Move} {index : Nat} {q : Submission}
    {stage : RequestStage} {holder : Option Holder} {ready : Bool} (orderly : s.Orderly)
    (step : Step s move s') (present : s.submissions[index]? = some q)
    (same : s' = { s.advance index q stage with holder, ready })
    (testing : s.pc = .test → holder = s.holder)
    (foreign : s.waiting = true → q.callback ≠ .pass s.pass → ready = s.ready ∧ holder = s.holder)
    (flag : s.waiting = true → q.callback = .pass s.pass → ready = stage.hasSet)
    (lock : s.waiting = true → q.callback = .pass s.pass →
      stage = .locked ∨ stage = .assigned → holder = some (.callback index))
    (settled : ∀ n, q.callback = .pass n → s.alive n = false →
      stage = .unlocked ∨ stage = .finished) : s'.Orderly := by
  have numbered := orderly.numbered.step step
  subst same
  -- A request carries the same callback as before.
  have before {j : Nat} {q' : Submission}
      (listed : (s.advance index q stage).submissions[j]? = some q') :
      ∃ q₀, s.submissions[j]? = some q₀ ∧ q₀.callback = q'.callback := by
    rcases getElem?_advance listed with ⟨rfl, rfl⟩ | ⟨_, old⟩
    · exact ⟨q, present, rfl⟩
    · exact ⟨q', old, rfl⟩
  have alone {j : Nat} {q' : Submission} (old : s.submissions[j]? = some q')
      (own : q'.callback = .pass s.pass) (other : j ≠ index) : q.callback ≠ .pass s.pass :=
    fun carries => other (orderly.unique j index q' q _ old present own carries)
  refine ⟨numbered, ?_, ?_, ?_, ?_, ?_⟩
  · intro i j q₁ q₂ n listed listed' own own'
    obtain ⟨old, was, same⟩ := before listed
    obtain ⟨old', was', same'⟩ := before listed'
    exact orderly.unique i j old old' n was was' (same.trans own) (same'.trans own')
  · intro waiting j q' listed own
    rcases getElem?_advance listed with ⟨_, rfl⟩ | ⟨other, old⟩
    · exact flag waiting own
    · rw [(foreign waiting (alone old own other)).1]
      exact orderly.flag waiting j q' old own
  · intro waiting j q' listed own critical
    rcases getElem?_advance listed with ⟨rfl, rfl⟩ | ⟨other, old⟩
    · exact lock waiting own critical
    · rw [(foreign waiting (alone old own other)).2]
      exact orderly.lock waiting j q' old own critical
  · intro here
    exact (testing here).trans (orderly.testing here)
  · intro j q' n listed own left
    rcases getElem?_advance listed with ⟨_, rfl⟩ | ⟨_, old⟩
    · exact settled n own left
    · exact orderly.settled j q' n old own left

/-- A callback that is not done with the mutex belongs to the pass of the wait. -/
theorem Orderly.alive_of_unsettled {s : State} {index : Nat} {q : Submission} {n : Nat}
    (orderly : s.Orderly) (present : s.submissions[index]? = some q) (own : q.callback = .pass n)
    (unlocked : q.stage ≠ .unlocked) (finished : q.stage ≠ .finished) :
    s.waiting = true ∧ q.callback = .pass s.pass := by
  by_contra left
  rcases orderly.settled index q n present own (by
    rw [← Bool.not_eq_true, alive_of_callback own]; exact left) with absurd | absurd
  · exact unlocked absurd
  · exact finished absurd

/-- A step of a callback keeps the mutex and the flag in agreement with what the requests have
done. -/
theorem Orderly.callback {s s' : State} {index : Nat} {q : Submission} (orderly : s.Orderly)
    (step : Step s (.callback index) s') (present : s.submissions[index]? = some q)
    (calls : s.callbackNext index q = some s') : s'.Orderly := by
  have critical (locked : q.stage = .locked ∨ q.stage = .assigned) {n : Nat}
      (own : q.callback = .pass n) :
      s.waiting = true ∧ q.callback = .pass s.pass ∧ s.holder = some (.callback index) := by
    have here : s.waiting = true ∧ q.callback = .pass s.pass := by
      apply orderly.alive_of_unsettled present own <;> rcases locked with stage | stage <;>
        rw [stage] <;> decide
    exact ⟨here.1, here.2, orderly.lock here.1 index q present here.2 locked⟩
  cases callbackStep_of_next calls with
  | nothing callback stage =>
      have none {P : Prop} {n : Nat} (own : q.callback = .pass n) : P := by
        rw [callback] at own
        cases own
      exact orderly.advance step present rfl (fun _ => rfl) (fun _ _ => ⟨rfl, rfl⟩)
        (fun _ own => none own) (fun _ own => none own) fun _ own => none own
  | @locks n callback stage alive free =>
      obtain ⟨waiting, own⟩ := (alive_of_callback callback).mp alive
      refine orderly.advance step present rfl ?_ (fun _ foreign => (foreign own).elim)
        (fun _ _ => ?_) (fun _ _ _ => rfl) ?_
      · intro here
        rw [orderly.testing here] at free
        cases free
      · exact (orderly.flag waiting index q present own).trans (by rw [stage]; rfl)
      · intro m carries left
        rw [callback] at carries
        cases carries
        exact (Bool.false_ne_true (left.symm.trans alive)).elim
  | @assigns n callback stage =>
      obtain ⟨waiting, own, held⟩ := critical (Or.inl stage) callback
      have alive := (alive_of_callback callback).mpr ⟨waiting, own⟩
      refine orderly.advance step present rfl (fun _ => rfl) (fun _ foreign => (foreign own).elim)
        (fun _ _ => ?_) (fun _ _ _ => held) ?_
      · rw [alive, Bool.or_true]
        rfl
      · intro m carries left
        rw [callback] at carries
        cases carries
        exact (Bool.false_ne_true (left.symm.trans alive)).elim
  | @unlocks n callback stage =>
      obtain ⟨waiting, own, held⟩ := critical (Or.inr stage) callback
      refine orderly.advance step present rfl ?_ (fun _ foreign => (foreign own).elim)
        (fun _ _ => ?_) ?_ fun _ _ _ => Or.inl rfl
      · intro here
        rw [orderly.testing here] at held
        cases held
      · exact (orderly.flag waiting index q present own).trans (by rw [stage]; rfl)
      · rintro _ _ (absurd | absurd) <;> cases absurd
  | @notifies n callback stage =>
      refine orderly.advance step present rfl (fun _ => rfl) (fun _ _ => ⟨rfl, rfl⟩)
        (fun waiting own => ?_) ?_ fun _ _ _ => Or.inr rfl
      · exact (orderly.flag waiting index q present own).trans (by rw [stage]; rfl)
      · rintro _ _ (absurd | absurd) <;> cases absurd
  | @strays n callback stage left =>
      have here := orderly.alive_of_unsettled present callback (by rw [stage]; decide)
        (by rw [stage]; decide)
      exact (Bool.false_ne_true
        (left.symm.trans ((alive_of_callback callback).mpr here))).elim

/-- **Every step keeps the order.** -/
theorem Orderly.step {s s' : State} {move : Move} (orderly : s.Orderly) (step : Step s move s') :
    s'.Orderly := by
  have numbered := orderly.numbered.step step
  have outside {p : Nat} (here : s.pc = .run p) : s.waiting = false := by rw [waiting, here]
  -- No callback is in its critical section while the executor holds the mutex.
  have idle (here : s.pc = .test) {i : Nat} {q : Submission}
      (listed : s.submissions[i]? = some q) (own : q.callback = .pass s.pass) :
      ¬ (q.stage = .locked ∨ q.stage = .assigned) := by
    intro critical
    have held := orderly.lock (by rw [waiting, here]) i q listed own critical
    rw [orderly.testing here] at held
    cases held
  cases transits_of_step step with
  | begin here =>
      exact orderly.running (by rw [waiting, here]) rfl rfl (Nat.le_refl _) rfl
  | passOver here => exact orderly.running (outside here) rfl rfl (Nat.le_refl _) rfl
  | refuseFront here => exact orderly
  | refuseLast here => exact orderly.running (outside here) rfl rfl (Nat.le_succ _) rfl
  | inferFront here present calls => exact orderly.inferFront (outside here) present step calls
  | inferLast here atLast calls => exact orderly.inferLast (outside here) step calls
  | acquire here free =>
      have waits : s.waiting = true := by rw [waiting, here]
      refine orderly.inside step waits rfl rfl (fun _ => rfl)
        (Or.inr fun i q listed own locked => ?_)
      have held := orderly.lock waits i q listed own locked
      rw [free] at held
      cases held
  | asleep here unset =>
      exact orderly.inside step (by rw [waiting, here]) rfl rfl (fun absurd => by cases absurd)
        (Or.inr fun i q listed own => idle here listed own)
  | passes here set =>
      have waits : s.waiting = true := by rw [waiting, here]
      refine ⟨numbered, orderly.unique, ?_, ?_, ?_, ?_⟩
      · intro absurd
        cases absurd
      · intro absurd
        cases absurd
      · intro absurd
        cases absurd
      · intro i q n listed own _
        by_cases current : q.callback = .pass s.pass
        · -- The flag is set, and the mutex is not the callback's.
          have stage := orderly.flag waits i q listed current
          have free := idle here listed current
          rw [set] at stage
          revert stage free
          cases q.stage <;> simp [RequestStage.hasSet]
        · refine orderly.settled i q n listed own ?_
          rw [← Bool.not_eq_true, alive_of_callback own]
          exact fun both => current both.2
  | wake here =>
      exact orderly.inside step (by rw [waiting, here]) rfl rfl (fun absurd => by cases absurd)
        (Or.inl rfl)
  | post here => exact orderly.running (by rw [waiting, here]) rfl rfl (Nat.le_refl _) rfl
  | @execute index q present queued =>
      refine orderly.advance step present rfl (fun _ => rfl) (fun _ _ => ⟨rfl, rfl⟩)
        (fun waits own => ?_) ?_ ?_
      · exact (orderly.flag waits index q present own).trans (by rw [queued]; rfl)
      · rintro _ _ (absurd | absurd) <;> cases absurd
      · intro n own left
        rcases orderly.settled index q n present own left with absurd | absurd <;>
          rw [queued] at absurd <;> cases absurd
  | @complete index q present executing =>
      refine orderly.advance step present rfl (fun _ => rfl) (fun _ _ => ⟨rfl, rfl⟩)
        (fun waits own => ?_) ?_ ?_
      · exact (orderly.flag waits index q present own).trans (by rw [executing]; rfl)
      · rintro _ _ (absurd | absurd) <;> cases absurd
      · intro n own left
        rcases orderly.settled index q n present own left with absurd | absurd <;>
          rw [executing] at absurd <;> cases absurd
  | callback present calls => exact orderly.callback step present calls

end State

end Protocol

end TorchDsp
