import TorchDsp.Wrapper.Flush

/-! # How often FLUSHED is pushed

The worker never leaves the flushing state, so that every iteration from the one
that reaches the flush count on pushes FLUSHED again
(`TorchDsp.ThreadWrapper.flushedSince_eq`). A flush pushes it at most once exactly
when no message asks for a further iteration before the next DONE message
(`TorchDsp.ThreadWrapper.flushed_once_iff`).
-/

namespace TorchDsp

/-- The iteration of a flush that is the first to push FLUSHED, counted from one. -/
def SchedulerTritonOptions.flushLimit (opts : SchedulerTritonOptions) : Nat :=
  if opts.flush then max 1 opts.flushCount else 1

namespace ThreadWrapper

/-- How many FLUSHED messages have been pushed since the latest DONE message. -/
def flushedSince : List Record → Nat
  | [] => 0
  | .iterated _ pushed :: rest => pushed.countP MonitorMessage.isFlushed + flushedSince rest
  | .handled msg pushed :: rest =>
      pushed.countP MonitorMessage.isFlushed +
        if msg = .action .done then 0 else flushedSince rest

/-- Between two DONE messages, and after the last one, FLUSHED is pushed at most
once. -/
def FlushedOnce (log : List Record) : Prop :=
  ∀ part, part <:+ log → flushedSince part ≤ 1

/-- No flush goes on beyond the iteration that reports it. -/
def FlushesStop (opts : SchedulerTritonOptions) (log : List Record) : Prop :=
  ∀ part, part <:+ log → ∀ since, sinceDone part = some since → since.length ≤ opts.flushLimit

private theorem flushDue_some_iff (opts : SchedulerTritonOptions)
    (since : List ExecutorIterationStatus) :
    flushDue opts (some since) = true ↔ opts.flushLimit ≤ since.length + 1 := by
  unfold flushDue SchedulerTritonOptions.flushLimit
  cases opts.flush with
  | false => simp
  | true =>
      simp only [Bool.not_true, Bool.false_or, decide_eq_true_eq, ↓reduceIte]
      omega

/-- The worker pushes FLUSHED once for every iteration from the one that reaches
the flush count on. The induction goes back to the DONE message. -/
theorem flushedSince_eq {opts : SchedulerTritonOptions} {σ : State}
    (tracks : TracksFlush opts σ) {part : List Record} (inside : part <:+ σ.log) :
    flushedSince part =
      (sinceDone part).elim 0 fun since => since.length + 1 - opts.flushLimit := by
  induction part with
  | nil => rfl
  | cons record older ih =>
      have before := ih (suffix_of_cons_suffix inside)
      cases record with
      | handled msg pushed =>
          rw [flushedSince, sinceDone, tracks.handled msg pushed older inside, Nat.zero_add]
          by_cases done : msg = .action .done
          · have positive : 1 ≤ opts.flushLimit := by
              unfold SchedulerTritonOptions.flushLimit
              split <;> omega
            simp only [done, ↓reduceIte, Option.elim_some, List.length_nil, Nat.zero_add]
            omega
          · rw [if_neg done, if_neg done, before]
      | iterated s pushed =>
          rw [flushedSince, sinceDone, tracks.iterated s pushed older inside, before]
          cases sinceDone older with
          | none => simp [flushDue]
          | some since =>
              have due := flushDue_some_iff opts since
              simp only [Option.map_some, Option.elim_some, List.length_cons]
              by_cases reached : opts.flushLimit ≤ since.length + 1
              · rw [if_pos (due.mpr reached)]
                omega
              · rw [if_neg fun absurd => reached (due.mp absurd)]
                omega

/-- **When FLUSHED is pushed once.** -/
theorem flushed_once_iff (opts : SchedulerTritonOptions) (id : Nat)
    (taken : List (Transition.Taken State Act)) (σ : State)
    (run : Transition.Run (Step opts) (State.initial id) taken σ) :
    FlushedOnce σ.log ↔ FlushesStop opts σ.log := by
  have tracks := tracksFlush_of_run run
  constructor
  · intro once part inside since found
    have bound := once part inside
    rw [flushedSince_eq tracks inside, found, Option.elim_some] at bound
    omega
  · intro stops part inside
    rw [flushedSince_eq tracks inside]
    cases found : sinceDone part with
    | none => exact Nat.zero_le 1
    | some since =>
        have short := stops part inside since found
        rw [Option.elim_some]
        omega

/-- A flush of two iterations, the second of which reports it. -/
theorem flushed_once :
    ∃ taken σ, Transition.Run (Step { flushCount := 2 }) (State.initial 0) taken σ ∧
      flushedSince σ.log = 1 ∧ FlushedOnce σ.log := by
  have follows : Transition.follow (next { flushCount := 2 }) (State.initial 0)
      (flushTwice .blkdIn .blkdOut) = some _ := rfl
  obtain ⟨taken, run, _⟩ := Transition.Run.of_follow follows
  refine ⟨taken, _, run, rfl, (flushed_once_iff _ 0 taken _ run).mpr ?_⟩
  intro part inside since found
  have listed := (sinceDone_begins_statuses found).length_le
  exact Nat.le_trans listed (Nat.le_trans ((inside.filterMap _).length_le) (by decide))

/-- A neighbour's notification after the flush count has been reached makes the
worker push FLUSHED again. -/
theorem flushed_again :
    ∃ taken σ, Transition.Run (Step { flushCount := 2 }) (State.initial 0) taken σ ∧
      flushedSince σ.log = 2 ∧ ¬ FlushedOnce σ.log := by
  have follows : Transition.follow (next { flushCount := 2 }) (State.initial 0)
      (flushTwice .blkdIn .blkdIn ++ .push (.action .notifyInput) ::
        List.replicate 8 (.step .blkdIn)) = some _ := rfl
  obtain ⟨taken, run, _⟩ := Transition.Run.of_follow follows
  exact ⟨taken, _, run, rfl, fun once => absurd (once _ List.suffix_rfl) (by decide)⟩

end ThreadWrapper

end TorchDsp
