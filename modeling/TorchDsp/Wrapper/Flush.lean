import Mathlib.Data.List.Infix
import TorchDsp.Wrapper.Steps

/-! # Flushing

Between a DONE message and FLUSHED the worker counts its iterations, whatever
they return. FLUSHED therefore follows iterations that were all blocked exactly
when no flush that lasts long enough contains an iteration that was not
(`TorchDsp.ThreadWrapper.flushed_after_blocked_iff`).
-/

namespace TorchDsp

def MonitorMessage.isFlushed : MonitorMessage → Bool
  | .flushed _ => true
  | .done _ => false

/-- `BLKD_IN` or `BLKD_OUT`. -/
def ExecutorIterationStatus.isBlocked (s : ExecutorIterationStatus) : Bool :=
  s = .blkdIn || s = .blkdOut

namespace ThreadWrapper

/-- The statuses of all iterations, latest first. -/
def statuses (log : List Record) : List ExecutorIterationStatus :=
  log.filterMap fun
    | .iterated s _ => some s
    | .handled .. => none

/-- The statuses of the iterations since the latest DONE message, latest first,
if there has been one. -/
def sinceDone : List Record → Option (List ExecutorIterationStatus)
  | [] => none
  | .iterated s _ :: rest => (sinceDone rest).map (s :: ·)
  | .handled msg _ :: rest => if msg = .action .done then some [] else sinceDone rest

/-- Every FLUSHED comes right after `flush_count` iterations, and at least one,
that were all blocked. -/
def FlushedAfterBlocked (opts : SchedulerTritonOptions) (log : List Record) : Prop :=
  ∀ s pushed older, .iterated s pushed :: older <:+ log → (∃ id, .flushed id ∈ pushed) →
    max 1 opts.flushCount ≤ (s :: statuses older).length ∧
      ∀ status ∈ (s :: statuses older).take (max 1 opts.flushCount), status.isBlocked = true

/-- Whenever the worker has run `flush_count` iterations, and at least one, since
the latest DONE message, all of its iterations since then were blocked. -/
def FlushesBlocked (opts : SchedulerTritonOptions) (log : List Record) : Prop :=
  ∀ part, part <:+ log → ∀ since, sinceDone part = some since →
    max 1 opts.flushCount ≤ since.length → ∀ status ∈ since, status.isBlocked = true

/-- The iterations since the latest DONE message are the latest of all. -/
theorem sinceDone_begins_statuses {log : List Record} {since : List ExecutorIterationStatus}
    (found : sinceDone log = some since) : since <+: statuses log := by
  induction log generalizing since with
  | nil => cases found
  | cons record rest ih =>
      cases record with
      | iterated s pushed =>
          obtain ⟨earlier, before, rfl⟩ := Option.map_eq_some_iff.mp found
          exact List.cons_prefix_cons.mpr ⟨rfl, ih before⟩
      | handled msg pushed =>
          rw [sinceDone] at found
          split at found
          · cases found
            exact List.nil_prefix
          · exact ih found

/-- Whether the next iteration is reported with FLUSHED, given the iterations
since the latest DONE message. -/
def flushDue (opts : SchedulerTritonOptions) : Option (List ExecutorIterationStatus) → Bool
  | none => false
  | some since => !opts.flush || opts.flushCount ≤ since.length + 1

/-- What the worker keeps of its log, and where FLUSHED is pushed in it. -/
structure TracksFlush (opts : SchedulerTritonOptions) (σ : State) : Prop where
  flushing : σ.wrapper.flushing = (sinceDone σ.log).isSome
  count : opts.flush = true → ∀ since, sinceDone σ.log = some since →
    σ.wrapper.flushCnt = since.length
  handled : ∀ msg pushed older, .handled msg pushed :: older <:+ σ.log →
    pushed.countP MonitorMessage.isFlushed = 0
  iterated : ∀ s pushed older, .iterated s pushed :: older <:+ σ.log →
    pushed.countP MonitorMessage.isFlushed = if flushDue opts (sinceDone older) then 1 else 0

private theorem countP_flushed_handleMessage (w : ThreadWrapper) (msg : SchedulerMessage) :
    (w.handleMessage msg).2.1.countP MonitorMessage.isFlushed = 0 := by
  cases msg with
  | action asked => cases asked <;> rfl
  | _ => rfl

private theorem countP_flushed_handleWorkNotification (opts : SchedulerTritonOptions)
    (w : ThreadWrapper) (s : ExecutorIterationStatus) :
    (handleWorkNotification opts w s).2.1.countP MonitorMessage.isFlushed =
      if w.flushing = true ∧ (opts.flush = true → opts.flushCount ≤ w.flushCnt + 1) then 1
      else 0 := by
  have reported : (if s = .done then [MonitorMessage.done (some w.id)] else []).countP
      MonitorMessage.isFlushed = 0 := by
    split <;> rfl
  rw [handleWorkNotification_pushed, List.countP_append, reported, Nat.zero_add]
  split <;> rfl

/-- What one transition adds to the log. -/
theorem Step.log_cases {opts : SchedulerTritonOptions} {σ σ' : State} {act : Act}
    (step : Step opts σ act σ') :
    (σ'.log = σ.log ∧ σ'.wrapper.flushing = σ.wrapper.flushing ∧
        σ'.wrapper.flushCnt = σ.wrapper.flushCnt) ∨
      (∃ msg, σ'.log = .handled msg (σ.wrapper.handleMessage msg).2.1 :: σ.log ∧
        σ'.wrapper = (σ.wrapper.handleMessage msg).1) ∨
      ∃ s, σ'.log = .iterated s (handleWorkNotification opts σ.wrapper s).2.1 :: σ.log ∧
        σ'.wrapper = (handleWorkNotification opts σ.wrapper s).1 := by
  cases step_iff_moved.mp step with
  | handle s msg => exact Or.inr (Or.inl ⟨msg, rfl, rfl⟩)
  | iterate s => exact Or.inr (Or.inr ⟨s, rfl, rfl⟩)
  | _ => exact Or.inl ⟨rfl, rfl, rfl⟩

/-- A worker that tracks its flush knows whether FLUSHED is due. -/
theorem TracksFlush.due_iff {opts : SchedulerTritonOptions} {σ : State}
    (tracks : TracksFlush opts σ) : flushDue opts (sinceDone σ.log) = true ↔
      σ.wrapper.flushing = true ∧
        (opts.flush = true → opts.flushCount ≤ σ.wrapper.flushCnt + 1) := by
  rw [tracks.flushing]
  cases found : sinceDone σ.log with
  | none => simp [flushDue]
  | some since =>
      cases enabled : opts.flush with
      | false => simp [flushDue, enabled]
      | true => simp [flushDue, enabled, tracks.count enabled since found]

/-- Every step keeps the flush in agreement with the log. -/
theorem TracksFlush.step {opts : SchedulerTritonOptions} {σ σ' : State} {act : Act}
    (tracks : TracksFlush opts σ) (step : Step opts σ act σ') : TracksFlush opts σ' := by
  rcases step.log_cases with ⟨log, flushing, count⟩ | ⟨msg, log, wrapper⟩ | ⟨s, log, wrapper⟩
  · refine ⟨?_, ?_, ?_, ?_⟩
    · rw [log, flushing]
      exact tracks.flushing
    · rw [log, count]
      exact tracks.count
    · rw [log]
      exact tracks.handled
    · rw [log]
      exact tracks.iterated
  · refine ⟨?_, ?_, ?_, ?_⟩
    · by_cases done : msg = .action .done
      · subst done
        rw [log, wrapper]
        rfl
      · rw [log, wrapper, sinceDone, if_neg done, (handleMessage_of_ne_done _ done).1]
        exact tracks.flushing
    · intro enabled since found
      rw [log, sinceDone] at found
      by_cases done : msg = .action .done
      · subst done
        cases found
        rw [wrapper]
        rfl
      · rw [if_neg done] at found
        rw [wrapper, (handleMessage_of_ne_done _ done).2]
        exact tracks.count enabled since found
    · intro msg' pushed older inside
      rw [log] at inside
      rcases List.suffix_cons_iff.mp inside with same | inside
      · cases same
        exact countP_flushed_handleMessage σ.wrapper msg
      · exact tracks.handled msg' pushed older inside
    · intro s pushed older inside
      rw [log] at inside
      have before := (List.suffix_cons_iff.mp inside).resolve_left (by simp)
      exact tracks.iterated s pushed older before
  · refine ⟨?_, ?_, ?_, ?_⟩
    · rw [log, wrapper, handleWorkNotification_flushing, sinceDone, tracks.flushing,
        Option.isSome_map]
    · intro enabled since found
      rw [log, sinceDone] at found
      obtain ⟨earlier, before, rfl⟩ := Option.map_eq_some_iff.mp found
      have flushing : σ.wrapper.flushing = true := by
        rw [tracks.flushing, before]
        rfl
      rw [wrapper, handleWorkNotification_flushCnt enabled flushing,
        tracks.count enabled _ before, List.length_cons]
    · intro msg pushed older inside
      rw [log] at inside
      have before := (List.suffix_cons_iff.mp inside).resolve_left (by simp)
      exact tracks.handled msg pushed older before
    · intro s' pushed older inside
      rw [log] at inside
      rcases List.suffix_cons_iff.mp inside with same | inside
      · cases same
        rw [countP_flushed_handleWorkNotification]
        simp only [tracks.due_iff]
      · exact tracks.iterated s' pushed older inside

/-- Along every run the flush agrees with the log. -/
theorem tracksFlush_of_run {opts : SchedulerTritonOptions} {id : Nat}
    {taken : List (Transition.Taken State Act)} {σ : State}
    (run : Transition.Run (Step opts) (State.initial id) taken σ) : TracksFlush opts σ := by
  refine run.invariant_of_step (TracksFlush opts) ⟨rfl, ?_, ?_, ?_⟩ fun _ _ _ step tracks =>
    tracks.step step
  · intro _ since absurd
    cases absurd
  · intro msg pushed older inside
    cases List.suffix_nil.mp inside
  · intro s pushed older inside
    cases List.suffix_nil.mp inside

/-- What the worker remembers of its log while it flushes. -/
structure Remembers (opts : SchedulerTritonOptions) (σ : State) : Prop where
  flushing : σ.wrapper.flushing = true ↔ ∃ since, sinceDone σ.log = some since
  count : ∀ since, sinceDone σ.log = some since → σ.wrapper.flushCnt = since.length
  pushes : ∀ s pushed older, .iterated s pushed :: older <:+ σ.log →
    ((∃ id, .flushed id ∈ pushed) ↔
      ∃ since, sinceDone older = some since ∧ opts.flushCount ≤ since.length + 1)

/-- With the flush option on, the worker pushes FLUSHED exactly when it has run
`flush_count` iterations. -/
theorem TracksFlush.remembers {opts : SchedulerTritonOptions} (enabled : opts.flush = true)
    {σ : State} (tracks : TracksFlush opts σ) : Remembers opts σ := by
  refine ⟨?_, tracks.count enabled, fun s pushed older inside => ?_⟩
  · rw [tracks.flushing, Option.isSome_iff_exists]
  · have once := tracks.iterated s pushed older inside
    have some_pushed : (∃ id, .flushed id ∈ pushed) ↔
        0 < pushed.countP MonitorMessage.isFlushed := by
      rw [List.countP_pos_iff]
      constructor
      · rintro ⟨id, member⟩
        exact ⟨_, member, rfl⟩
      · rintro ⟨message, member, flushed⟩
        cases message with
        | done => cases flushed
        | flushed id => exact ⟨id, member⟩
    rw [some_pushed, once]
    cases sinceDone older with
    | none => simp [flushDue]
    | some since =>
        simp only [flushDue, enabled, Bool.not_true, Bool.false_or, decide_eq_true_eq,
          Option.some.injEq, exists_eq_left']
        split <;> omega

private theorem remembers_of_run {opts : SchedulerTritonOptions} (enabled : opts.flush = true)
    {id : Nat} {taken : List (Transition.Taken State Act)} {σ : State}
    (run : Transition.Run (Step opts) (State.initial id) taken σ) : Remembers opts σ :=
  (tracksFlush_of_run run).remembers enabled

/-- The records before a suffix of the log are a suffix, too. -/
theorem suffix_of_cons_suffix {record : Record} {older log : List Record}
    (inside : record :: older <:+ log) : older <:+ log :=
  (List.suffix_cons record older).trans inside

/-- Where every FLUSHED follows blocked iterations, a flush that lasts long
enough has been blocked all along. The induction goes back to the DONE message. -/
theorem flushesBlocked_of_flushed {opts : SchedulerTritonOptions} {σ : State}
    (remembers : Remembers opts σ) (flushed : FlushedAfterBlocked opts σ.log) :
    FlushesBlocked opts σ.log := by
  intro part
  induction part with
  | nil => intro _ since absurd; cases absurd
  | cons record older ih =>
      intro inside since found long status member
      cases record with
      | handled msg pushed =>
          rw [sinceDone] at found
          split at found
          · cases found
            cases member
          · exact ih (suffix_of_cons_suffix inside) since found long status member
      | iterated s pushed =>
          obtain ⟨earlier, before, rfl⟩ := Option.map_eq_some_iff.mp found
          have pushes := (remembers.pushes s pushed older inside).mpr
            ⟨earlier, before, by rw [List.length_cons] at long; omega⟩
          obtain ⟨enough, blocked⟩ := flushed s pushed older inside pushes
          have ahead : s :: earlier <+: s :: statuses older :=
            List.cons_prefix_cons.mpr ⟨rfl, sinceDone_begins_statuses before⟩
          by_cases exact : max 1 opts.flushCount ≤ earlier.length
          · rcases List.mem_cons.mp member with rfl | later
            · apply blocked status
              have positive : 0 < max 1 opts.flushCount := by omega
              rw [List.take_cons positive]
              exact List.mem_cons_self
            · exact ih (suffix_of_cons_suffix inside) earlier before exact status later
          · -- The iterations since DONE are just those that FLUSHED looks back at.
            have length : (s :: earlier).length = max 1 opts.flushCount := by
              rw [List.length_cons] at long ⊢
              omega
            apply blocked status
            rwa [← length, ← List.prefix_iff_eq_take.mp ahead]

/-- **When FLUSHED follows blocked iterations.** -/
theorem flushed_after_blocked_iff (opts : SchedulerTritonOptions) (enabled : opts.flush = true)
    (id : Nat) (taken : List (Transition.Taken State Act)) (σ : State)
    (run : Transition.Run (Step opts) (State.initial id) taken σ) :
    FlushedAfterBlocked opts σ.log ↔ FlushesBlocked opts σ.log := by
  have remembers := remembers_of_run enabled run
  constructor
  · exact flushesBlocked_of_flushed remembers
  · intro blocked s pushed older inside pushes
    obtain ⟨earlier, before, due⟩ := (remembers.pushes s pushed older inside).mp pushes
    have found : sinceDone (.iterated s pushed :: older) = some (s :: earlier) := by
      rw [sinceDone, before, Option.map_some]
    have ahead : s :: earlier <+: s :: statuses older :=
      List.cons_prefix_cons.mpr ⟨rfl, sinceDone_begins_statuses before⟩
    have long : max 1 opts.flushCount ≤ (s :: earlier).length := by
      rw [List.length_cons]
      omega
    refine ⟨Nat.le_trans long ahead.length_le, fun status member => ?_⟩
    apply blocked _ inside _ found long status
    rw [List.prefix_iff_eq_append.mp ahead |>.symm, List.take_append_of_le_length long] at member
    exact List.mem_of_mem_take member

private theorem flushesBlocked_of_all {opts : SchedulerTritonOptions} {log : List Record}
    (blocked : ∀ s ∈ statuses log, s.isBlocked = true) : FlushesBlocked opts log := by
  intro part inside since found _ status member
  have listed := (sinceDone_begins_statuses found).subset member
  exact blocked status ((inside.filterMap _).subset listed)

/-- The gate opens, a DONE message arrives, and the worker runs two iterations
with the given statuses. -/
def flushTwice (first second : ExecutorIterationStatus) : List Act :=
  [.openGate, .push (.action .done)] ++ List.replicate 12 (.step first) ++
    List.replicate 8 (.step second)

/-- After two blocked iterations FLUSHED is pushed. -/
theorem blocked_flush :
    ∃ taken σ, Transition.Run (Step { flushCount := 2 }) (State.initial 0) taken σ ∧
      (∃ older, σ.log = .iterated .blkdOut [.flushed 0] :: older) ∧
      FlushedAfterBlocked { flushCount := 2 } σ.log := by
  have follows : Transition.follow (next { flushCount := 2 }) (State.initial 0)
      (flushTwice .blkdIn .blkdOut) = some _ := rfl
  obtain ⟨taken, run, _⟩ := Transition.Run.of_follow follows
  refine ⟨taken, _, run, ⟨_, rfl⟩, ?_⟩
  exact (flushed_after_blocked_iff _ rfl 0 taken _ run).mpr (flushesBlocked_of_all (by decide))

/-- Two iterations that made progress count like two that were blocked. -/
theorem flushed_while_ready :
    ∃ taken σ, Transition.Run (Step { flushCount := 2 }) (State.initial 0) taken σ ∧
      (∃ older, σ.log = .iterated .ready [.flushed 0] :: older) ∧
      ¬ FlushedAfterBlocked { flushCount := 2 } σ.log := by
  have follows : Transition.follow (next { flushCount := 2 }) (State.initial 0)
      (flushTwice .ready .ready) = some _ := rfl
  obtain ⟨taken, run, _⟩ := Transition.Run.of_follow follows
  refine ⟨taken, _, run, ⟨_, rfl⟩, fun flushed => ?_⟩
  obtain ⟨_, blocked⟩ := flushed _ _ _ List.suffix_rfl ⟨0, List.mem_cons_self⟩
  exact Bool.false_ne_true (blocked .ready (by decide))

end ThreadWrapper

end TorchDsp
