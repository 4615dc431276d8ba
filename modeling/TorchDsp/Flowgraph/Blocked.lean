import TorchDsp.Executor.Readiness
import TorchDsp.Flowgraph.Seen

/-! # A blocked scheduler that waits

A check that has ended the latest iteration of a waiting scheduler would fail
again, where the scheduler is connected to all who feed it and to all who make room
for it (`TorchDsp.Flowgraph.waiting_stays_blocked`): nothing that it waits for has
happened without its being told.
-/

namespace TorchDsp

open GraphExecutor

namespace Flowgraph

variable {n : Nat} {opts : Fin n → SchedulerTritonOptions} {wiring : Wiring n}
  {f f' f₀ : Flowgraph n} {act : Act n} {d : Fin n} {k : Nat}
  {taken front back : List (Transition.Taken (Flowgraph n) (Act n))}
  {t : Transition.Taken (Flowgraph n) (Act n)}

/-! ## Between two iterations -/

/-- No phase of an iteration is under way. -/
def Outside (f : Flowgraph n) (d : Fin n) : Prop :=
  (f.schedulers d).point = .start ∨
    ∃ status events, (f.schedulers d).point = .returned status events

/-- Where no iteration of `d` begins, its blocks and what only they write stay. -/
theorem Outside.step (outside : f.Outside d) (moved : Moved opts wiring f act f')
    (none : ¬ Begins d ⟨f, act, f'⟩) :
    f'.Outside d ∧ (f'.schedulers d).blocks = (f.schedulers d).blocks ∧
      ∀ k, k ∈ outputBuffers (f.schedulers d).blocks →
        (∀ v, k ∈ outputBuffers (f.schedulers v).blocks → v = d) →
          (f'.buffers k).totalWritten = (f.buffers k).totalWritten := by
  have noPhase {answers : Answers} {g : Group} {point : Point}
      (inside : ∀ status events, (f.schedulers d).point ≠ .returned status events)
      (resumes : resume answers (f.group d) (f.schedulers d).point = .ok (g, point))
      (after : f' = f.advance wiring d g point) : False := by
    rcases outside with start | ⟨status, events, returned⟩
    · refine none ⟨start, ?_⟩
      obtain ⟨ready, _, same⟩ := point_of_start (start ▸ resumes)
      dsimp only
      rw [after, advance_self, same]
      cases ready <;> exact Point.noConfusion
    · exact inside status events returned
  have kept (k : Nat) (own : k ∈ outputBuffers (f.schedulers d).blocks)
      (sole : ∀ v, k ∈ outputBuffers (f.schedulers v).blocks → v = d) :
      (f'.buffers k).totalWritten = (f.buffers k).totalWritten := by
    apply Classical.byContradiction
    intro changed
    rcases moved.written changed with ⟨foreign, _⟩ |
        ⟨v, answers, g, point, _, inside, resumes, after, by_v⟩
    · exact foreign d own
    · obtain rfl := sole v by_v
      exact noPhase inside resumes after
  rcases moved.inside d with ⟨blocks, point⟩ | ⟨blocks, point⟩ |
      ⟨answers, g, point, _, inside, resumes, after⟩
  · refine ⟨?_, blocks, kept⟩
    unfold Outside
    rw [point]
    exact outside
  · exact ⟨Or.inl point, blocks, kept⟩
  · exact (noPhase inside resumes after).elim

private theorem blocks_since (run : Transition.Run (Step opts wiring) f taken f')
    (outside : f.Outside d) (latest : ∀ t ∈ taken, ¬ Begins d t) :
    (f'.schedulers d).blocks = (f.schedulers d).blocks ∧
      ∀ k, k ∈ outputBuffers (f.schedulers d).blocks →
        (∀ v, k ∈ outputBuffers (f.schedulers v).blocks → v = d) →
          (f'.buffers k).totalWritten = (f.buffers k).totalWritten := by
  have along := run.invariant
    (fun τ => τ.Outside d ∧ SameWires f τ ∧
      (τ.schedulers d).blocks = (f.schedulers d).blocks ∧
      ∀ k, k ∈ outputBuffers (f.schedulers d).blocks →
        (∀ v, k ∈ outputBuffers (f.schedulers v).blocks → v = d) →
          (τ.buffers k).totalWritten = (f.buffers k).totalWritten)
    ⟨outside, fun _ => rfl, rfl, fun _ _ _ => rfl⟩
    fun t member step ⟨outside, wires, blocks, kept⟩ => by
      obtain ⟨after, same, written⟩ := outside.step step.moved (latest t member)
      refine ⟨after, fun u => (step.moved.sameWires u).trans (wires u), same.trans blocks,
        fun k own sole => (written k ?_ fun v listed => ?_).trans (kept k own sole)⟩
      · rw [blocks]
        exact own
      · rw [wires.outputBuffers] at listed
        exact sole v listed
  exact along.1.2.2

/-- What no step changes about a buffer. -/
structure SameLimits (f f' : Flowgraph n) (k : Nat) : Prop where
  bufSize : (f'.buffers k).bufSize = (f.buffers k).bufSize
  most : (f'.buffers k).maxBufferFill = (f.buffers k).maxBufferFill
  least : (f'.buffers k).minBufferFill = (f.buffers k).minBufferFill
  readers : (f'.buffers k).outsideReads.length = (f.buffers k).outsideReads.length

/-- No step changes the limits of a buffer. -/
theorem Moved.sameLimits (moved : Moved opts wiring f act f') (k : Nat) : SameLimits f f' k := by
  cases moved with
  | deliver u answers iterates v msg rest sends f₁ popped thread arrives =>
      subst popped
      exact ⟨rfl, rfl, rfl, rfl⟩
  | finish | phase | thread => exact ⟨rfl, rfl, rfl, rfl⟩
  | outside act j buffer foreign grown limits reads =>
      by_cases same : k = j
      · subst same
        refine ⟨?_, ?_, ?_, ?_⟩
        all_goals simp only [Function.update_self]
        · exact limits.1
        · exact limits.2.1
        · exact limits.2.2
        · exact reads.length_eq.symm
      · refine ⟨?_, ?_, ?_, ?_⟩
        all_goals simp only [Function.update_of_ne same]

/-- The limits stay the same from step to step. -/
theorem SameLimits.trans {f'' : Flowgraph n} (first : SameLimits f f' k)
    (second : SameLimits f' f'' k) : SameLimits f f'' k :=
  ⟨second.bufSize.trans first.bufSize, second.most.trans first.most,
    second.least.trans first.least, second.readers.trans first.readers⟩

/-- No run changes the limits of a buffer. -/
theorem sameLimits_of_run (run : Transition.Run (Step opts wiring) f taken f') (k : Nat) :
    SameLimits f f' k :=
  run.invariant_of_step (SameLimits f · k) ⟨rfl, rfl, rfl, rfl⟩ fun _ _ _ step same =>
    same.trans (step.moved.sameLimits k)

/-- A scheduler without a reader of the buffer gets none. -/
theorem readsOf_nil_of_run (run : Transition.Run (Step opts wiring) f taken f') {v : Fin n}
    (none : Block.readsOf (f.schedulers v).blocks k = []) :
    Block.readsOf (f'.schedulers v).blocks k = [] := by
  refine run.invariant_of_step (fun τ => Block.readsOf (τ.schedulers v).blocks k = []) none ?_
  intro before act after step none
  rcases step.moved.inside v with ⟨same, _⟩ | ⟨same, _⟩ | ⟨answers, g, point, _, _, resumes, rfl⟩
  · rw [same, none]
  · rw [same, none]
  · have ahead := (effect_of_resume resumes).readsOf k
    change List.Forall₂ _ (Block.readsOf (before.schedulers v).blocks k) _ at ahead
    rw [none] at ahead
    rw [advance_self]
    exact List.forall₂_nil_left_iff.mp ahead

/-! ## Blocked iterations -/

/-- Every buffer that the first block of `d` reads is fed by a scheduler. -/
def Fed (wiring : Wiring n) (f : Flowgraph n) (d : Fin n) : Prop :=
  ∀ i r, (f.group d).reader 0 i = some r → ∃ u, Feeds wiring f u d r.source

/-- Every buffer that the last block of `d` writes is its own, and emptied by
schedulers. -/
def Emptied (wiring : Wiring n) (f : Flowgraph n) (d : Fin n) : Prop :=
  ∀ i k, (f.group d).outputBuffer ((f.schedulers d).blocks.length - 1) i = some k →
    (∀ v, k ∈ outputBuffers (f.schedulers v).blocks → v = d) ∧
    (f.buffers k).outsideReads = [] ∧
    ∀ v, v ≠ d → Block.readsOf (f.schedulers v).blocks k = [] ∨ Empties wiring f v d k

/-- A first block that is fed stays so. -/
theorem SameWires.fed (same : SameWires f f') (fed : Fed wiring f d) : Fed wiring f' d := by
  intro i r reads
  have both := same.source d i
  rw [reads, Option.map_some] at both
  obtain ⟨r', reads', source⟩ := Option.map_eq_some_iff.mp both.symm
  obtain ⟨u, feeds⟩ := fed i r' reads'
  exact ⟨u, source ▸ same.feeds feeds⟩

private theorem emptied_of_run (run : Transition.Run (Step opts wiring) f taken f')
    (emptied : Emptied wiring f d) : Emptied wiring f' d := by
  have same := sameWires_of_run run
  intro i k writes
  rw [Group.outputBuffer_of_wires (g := f.group d) (same d), same.length] at writes
  obtain ⟨sole, outside, others⟩ := emptied i k writes
  refine ⟨fun v listed => sole v ?_, ?_, fun v other => ?_⟩
  · rw [← same.outputBuffers]
    exact listed
  · have readers := (sameLimits_of_run run k).readers
    rw [outside] at readers
    exact List.length_eq_zero_iff.mp readers
  · exact (others v other).imp (readsOf_nil_of_run run) same.empties

/-- The space in a buffer, where all readers stand as they stood. -/
theorem spaceAvailable_of_same (limits : SameLimits f f' k)
    (written : (f'.buffers k).totalWritten = (f.buffers k).totalWritten)
    (read : ∀ v, Block.readsOf (f'.schedulers v).blocks k = Block.readsOf (f.schedulers v).blocks k)
    (outside : (f'.buffers k).outsideReads = (f.buffers k).outsideReads) :
    (f'.group d).spaceAvailable k = (f.group d).spaceAvailable k := by
  have reads : (f'.group d).readsOf k = (f.group d).readsOf k := by
    change Block.readsOf (f'.schedulers d).blocks k ++ f'.outsideReads d k =
      Block.readsOf (f.schedulers d).blocks k ++ f.outsideReads d k
    unfold outsideReads
    simp only [read, outside]
  unfold Group.spaceAvailable
  rw [reads]
  change (f'.buffers k).bufSize - ((f'.buffers k).totalWritten - _) =
    (f.buffers k).bufSize - ((f.buffers k).totalWritten - _)
  rw [limits.bufSize, written]
  exact congrArg (_ - ·) (congrArg (_ - ·) (congrArg (List.foldr min · _) written))

/-- The phase that has ended an iteration. -/
theorem Moved.phase_of_returned {f f' : Flowgraph n} {act : Act n} {answers : Answers}
    {status : ExecutorIterationStatus} {events : List Event} (moved : Moved opts wiring f act f')
    (turn : act = .turn d answers) (ended : (f'.schedulers d).point = .returned status events)
    (inside : (f.schedulers d).point ≠ .returned status events) :
    ∃ g, resume answers (f.group d) (f.schedulers d).point = .ok (g, .returned status events) ∧
      f' = f.advance wiring d g (.returned status events) := by
  rcases moved.inside d with ⟨_, same⟩ | ⟨_, same⟩ |
      ⟨answers', g, point, same, _, resumes, reached⟩
  · exact (inside (same.symm.trans ended)).elim
  · cases same.symm.trans ended
  · cases turn.symm.trans same
    rw [reached, advance_self] at ended
    cases ended
    exact ⟨g, resumes, reached⟩

/-- **A blocked scheduler that waits could do no better now.** Suppose that a check has
ended the latest iteration of `d`, and that `d` waits with no message on its way. The
input check would fail again if all that `d` reads is fed by schedulers connected to
it, and the output check if all that it writes is emptied by such. -/
theorem waiting_stays_blocked (starting : f₀.Starting)
    (run : Transition.Run (Step opts wiring) f₀ (front ++ t :: back) f) (asleep : f.Asleep d)
    (latest : ∀ t' ∈ back, ¬ Begins d t') {answers : Answers} (turn : t.label = .turn d answers)
    {status : ExecutorIterationStatus} {events : List Event}
    (ended : (t.target.schedulers d).point = .returned status events) :
    ((t.source.schedulers d).point = .start → Fed wiring f₀ d →
      ¬ InputsReady answers (f.group d)) ∧
    ((t.source.schedulers d).point = .inputsChecked → Emptied wiring f₀ d →
      ¬ OutputsReady answers (f.group d)) := by
  obtain ⟨before, step, after⟩ := run.split_at
  have orderly := (orderly_of_run before starting.orderly).step step.moved
  have outside : t.target.Outside d := Or.inr ⟨status, events, ended⟩
  obtain ⟨blocks, own⟩ := blocks_since after outside latest
  obtain ⟨written, read⟩ := totals_of_asleep after orderly latest asleep
  constructor
  · intro start fed ready
    obtain ⟨g, resumes, reached⟩ :=
      step.moved.phase_of_returned turn ended (by rw [start]; exact Point.noConfusion)
    obtain ⟨passes, checks, ends⟩ := point_of_start (start ▸ resumes)
    have fails : ¬ InputsReady answers (t.source.group d) := by
      rw [← checkFirst_passes_iff checks]
      rintro rfl
      cases ends
    have same := (checkFirst_eq_ok checks).1
    have fed := (sameWires_of_run before).fed fed
    refine fails (inputsReady_of_same ?_ (fun i r reads => ?_) ready)
    · change (f.schedulers d).blocks.map Block.bare = _
      rw [blocks, reached, advance_self]
      exact same.blocks
    · obtain ⟨u, feeds⟩ := fed i r reads
      refine (written u r.source ((step.moved.sameWires).feeds feeds)).trans ?_
      rw [reached]
      exact congrArg (fun all => (all r.source).totalWritten) same.buffers
  · intro checked emptied ready
    obtain ⟨g, resumes, reached⟩ :=
      step.moved.phase_of_returned turn ended (by rw [checked]; exact Point.noConfusion)
    rw [checked] at resumes
    obtain ⟨⟨middle, passes⟩, checks, ends⟩ := Except.bind_eq_ok resumes
    have checks := Except.mapError_eq_ok checks
    cases passes with
    | true => cases ends
    | false =>
      have fails : ¬ OutputsReady answers (t.source.group d) := by
        rw [← checkLast_passes_iff checks]
        exact Bool.false_ne_true
      have same := (checkLast_eq_ok checks).1
      obtain ⟨calls, _, ends⟩ := Except.bind_eq_ok ends
      cases ends
      have emptied := emptied_of_run before emptied
      have here : (f.schedulers d).blocks = g.blocks := by rw [blocks, reached, advance_self]
      have moved (k : Nat) : (t.target.buffers k).totalWritten =
          (t.source.buffers k).totalWritten := by
        rw [reached]
        exact congrArg (fun all => (all k).totalWritten) same.buffers
      refine fails (outputsReady_of_same ?_ (fun i k writes => ?_) ready)
      · change (f.schedulers d).blocks.map Block.bare = _
        rw [here]
        exact same.blocks
      · obtain ⟨sole, none, others⟩ := emptied i k writes
        have limits := sameLimits_of_run (after.cons step) k
        have listed : k ∈ outputBuffers (t.source.schedulers d).blocks :=
          Group.mem_outputBuffers writes
        refine ⟨spaceAvailable_of_same limits ?_ (fun v => ?_) ?_, limits.most, limits.least⟩
        · refine (own k ?_ fun v listed => sole v ?_).trans (moved k)
          · rw [step.moved.sameWires.outputBuffers]
            exact listed
          · rw [← step.moved.sameWires.outputBuffers]
            exact listed
        · by_cases own : v = d
          · subst own
            rw [here]
            exact Block.readsOf_of_attached (Group.SameTotals.attached same) k
          · have kept : t.target.schedulers v = t.source.schedulers v := by
              rw [reached, advance_of_ne _ _ _ own]
            rcases others v own with nil | empties
            · rw [readsOf_nil_of_run after (kept ▸ nil), nil]
            · rw [read v k (step.moved.sameWires.empties empties), kept]
        · have readers := limits.readers
          rw [none] at readers
          rw [none, List.length_eq_zero_iff.mp readers]

/-- Five items are too few for the second scheduler, and would be still. -/
theorem second_stays_blocked : ∃ front t back f,
    Transition.Run (Step (fun _ => {}) oneToNext) (inRow 5) (front ++ t :: back) f ∧
      f.Asleep 1 ∧ ¬ InputsReady (moving 5) (f.group 1) := by
  obtain ⟨front, t, back, f, run, asleep, begins, latest, turn, ended, _⟩ := second_waits
  have blocked := waiting_stays_blocked (inRow_starting 5) run asleep latest turn ended
  refine ⟨front, t, back, f, run, asleep, blocked.1 begins.1 fun i r reads => ?_⟩
  match i with
  | 0 =>
      cases reads
      exact ⟨0, inRow_feeds 5⟩
  | i + 1 => cases reads

end Flowgraph

end TorchDsp
