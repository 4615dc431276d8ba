import Mathlib.Algebra.BigOperators.Fin
import TorchDsp.Flowgraph.Network

/-! # Schedulers in a row

A pipeline: each scheduler runs one block, from its buffer into the next one. In
any interleaving, what has come in and has not come out is in the buffers or in the
hands of a block; all of it together never exceeds the capacity of the buffers
(`TorchDsp.Flowgraph.pipeline_conserves`).
-/

namespace TorchDsp

open GraphExecutor

namespace Flowgraph

variable {n : Nat} {opts : Fin n → SchedulerTritonOptions} {wiring : Wiring n}
  {f f' f₀ : Flowgraph n} {act : Act n} {u : Fin n} {k : Nat}

/-- Each scheduler runs one block, which reads its buffer, with a limit that is not
negative as an `int`, and writes the next one. -/
def Pipeline (f : Flowgraph n) : Prop :=
  ∀ u : Fin n, ∃ b w r v, (f.group u).OneBlock b w r v (u + 1) ∧ r.source = u ∧
    0 ≤ intOfSize r.maxBufferRead

/-- What has come in and has not come out: in front of a block, or in its hands. -/
def underway (f : Flowgraph n) : Nat :=
  ∑ u : Fin n, ((f.buffers u).totalWritten - (f.view u).frontier + (f.view u).unpublished)

/-- The capacity of all buffers of a pipeline. -/
def capacity (f : Flowgraph n) : Nat :=
  ∑ k ∈ Finset.range (n + 1), (f.buffers k).bufSize

/-- A row is a network. -/
theorem Pipeline.network (pipeline : f.Pipeline) :
    f.Network (fun u => u.val) (fun u => u.val + 1) :=
  ⟨pipeline, fun _ _ same => Fin.ext (Nat.add_right_cancel same)⟩

/-- A scheduler writes the next buffer alone. -/
theorem Pipeline.outputBuffers (pipeline : f.Pipeline) (u : Fin n) :
    outputBuffers (f.schedulers u).blocks = [u.val + 1] :=
  pipeline.network.outputBuffers u

/-- Every buffer has one writer. -/
theorem Pipeline.writersApart (pipeline : f.Pipeline) : f.WritersApart :=
  pipeline.network.writersApart

/-- The first buffer is filled from outside. -/
theorem Pipeline.foreign (pipeline : f.Pipeline) : f.Foreign 0 := by
  intro u listed
  rw [pipeline.outputBuffers] at listed
  exact absurd (List.mem_singleton.mp listed) (Nat.succ_ne_zero u).symm

/-- A block of a fresh pipeline. -/
theorem Fresh.underway (fresh : f.Fresh) (pipeline : f.Pipeline) (u : Fin n) :
    Interleaving.Underway (f.view u) u (u + 1) (f.view u) ∧ (f.view u).totalRead = 0 ∧
      (f.view u).totalWritten = 0 ∧ (f.view u).frontier = 0 :=
  pipeline.network.underway fresh u

/-- What flows through a row of stages, each of which holds some of it. -/
theorem sum_stages : ∀ (n : Nat) (written : Nat → Nat) (held : Fin n → Nat),
    (∀ u : Fin n, written u = held u + written (u + 1)) →
      written 0 = ∑ u, held u + written n
  | 0, _, _, _ => by simp
  | n + 1, written, held, stages => by
      have before := sum_stages n written (fun u => held u.castSucc) fun u => stages u.castSucc
      have last := stages (Fin.last n)
      rw [Fin.sum_univ_castSucc]
      simp only [Fin.val_last] at last
      omega

/-- Stages that fit between capacities fit all together. -/
theorem sum_le_capacity : ∀ (n : Nat) (size held : Nat → Nat) (front back : Fin n → Nat),
    held 0 ≤ size 0 → (∀ u : Fin n, front u ≤ held u ∧ back u + held (u + 1) ≤ size (u + 1)) →
      ∑ u, (front u + back u) + held n ≤ ∑ k ∈ Finset.range (n + 1), size k
  | 0, _, _, _, _, first, _ => by simpa using first
  | n + 1, size, held, front, back, first, stages => by
      have before := sum_le_capacity n size held (fun u => front u.castSucc)
        (fun u => back u.castSucc) first fun u => stages u.castSucc
      have last := stages (Fin.last n)
      rw [Fin.sum_univ_castSucc, Finset.sum_range_succ]
      simp only [Fin.val_last] at last
      omega

section Runs

variable {taken : List (Transition.Taken (Flowgraph n) (Act n))}

/-- **What goes into a pipeline comes out.** Whatever the interleaving, each scheduler
consumes every item of its buffer once and in order; what has come in and has not come
out is under way; and the buffers have room for all of it. -/
theorem pipeline_conserves (fresh : f₀.Fresh) (pipeline : f₀.Pipeline)
    (run : Transition.Run (Step opts wiring) f₀ taken f) (counts : ReportOneCount taken) :
    (∀ u : Fin n, taken.flatMap (fun t => Interleaving.consumedBy (seenBy u t)) =
        List.range (f.view u).frontier ∧
      (f.view u).frontier ≤ (f.buffers u).totalWritten) ∧
    (f.buffers 0).totalWritten = f.underway + (f.buffers n).totalWritten ∧
    f.underway ≤ f₀.capacity := by
  have stage (u : Fin n) : StageAccount f₀ f u u (u + 1) :=
    pipeline.network.stage_of_run fresh run counts u
  refine ⟨fun u => ⟨(pipeline.network.underway_of_run fresh run counts u).2, (stage u).behind⟩,
    ?_, ?_⟩
  · refine sum_stages n (fun k => (f.buffers k).totalWritten) _ fun u => ?_
    have behind := (stage u).behind
    have published := (stage u).published
    omega
  · have fits := sum_le_capacity n (fun k => (f₀.buffers k).bufSize) f.itemsHeld
      (fun u => (f.buffers u).totalWritten - (f.view u).frontier)
      (fun u => (f.view u).unpublished) (fresh.itemsHeld_of_run run pipeline.foreign)
      fun u => ⟨(stage u).front, (stage u).back⟩
    exact Nat.le_trans (Nat.le_add_right _ _) fits

end Runs

/-- The blocks in a row have not run. -/
theorem inRow_fresh : (inRow 0).Fresh := by
  refine ⟨inRow_starting 0, fun k => ?_, fun u r reads => ?_⟩
  · change (if k = 0 then 0 else 0) = 0
    split <;> rfl
  · cases reads
    rfl

/-- The blocks in a row are a pipeline. -/
theorem inRow_pipeline (items : Nat) : (inRow items).Pipeline := by
  intro u
  refine ⟨_, _, _, _, ⟨rfl, rfl, rfl, rfl, rfl, rfl, ?_⟩, rfl, (by decide : 0 ≤ intOfSize 0)⟩
  exact (Nat.succ_ne_self _).symm

/-- Five items come in, and the first scheduler takes them in hand. -/
theorem five_in_hand : ∃ taken f,
    Transition.Run (Step (fun _ => {}) oneToNext) (inRow 0) taken f ∧ ReportOneCount taken ∧
      (f.buffers 0).totalWritten = 5 ∧ (f.buffers 2).totalWritten = 0 := by
  obtain ⟨f₀, f₁, f₂, comes, takes, releases, count, facts⟩ : ∃ f₀ f₁ f₂,
      Transition.follow (next (fun _ => {}) oneToNext) (inRow 0)
          (.publish 0 5 :: .openGate 0 :: .push 0 (.action .notifyAll) ::
            List.replicate 10 (.turn 0 unasked)) = some f₀ ∧
        Step (fun _ => {}) oneToNext f₀ (.turn 0 (moving 5)) f₁ ∧
        Transition.follow (next (fun _ => {}) oneToNext) f₁ [.turn 0 unasked] = some f₂ ∧
        (∀ report ∈ (moving 5).reports 0, Interleaving.OneCount (f₀.group 0) report) ∧
        (f₂.buffers 0).totalWritten = 5 ∧ (f₂.buffers 2).totalWritten = 0 :=
    ⟨_, _, _, rfl, rfl, rfl, fun _ => Interleaving.oneCount_moving
      ⟨rfl, rfl, rfl, rfl, rfl, rfl, Nat.zero_ne_one⟩ (by decide) (by decide), rfl, rfl⟩
  obtain ⟨_, comes, counts⟩ := run_of_quiet comes fun act member v answers same => by
    subst same
    simp only [List.mem_cons, reduceCtorEq, List.mem_replicate, Act.turn.injEq, false_or] at member
    exact member.2.2
  obtain ⟨_, releases, counts'⟩ := run_of_quiet releases fun act member v answers same => by
    subst same
    cases List.mem_singleton.mp member
    rfl
  exact ⟨_, f₂, comes.append ((Transition.Run.single takes).append releases),
    counts.append ((reportOneCount_of_turn count).append counts'), facts⟩

/-- They are under way until they are published. -/
theorem five_underway : ∃ taken f,
    Transition.Run (Step (fun _ => {}) oneToNext) (inRow 0) taken f ∧ f.underway = 5 ∧
      f.underway ≤ (inRow 0).capacity := by
  obtain ⟨taken, f, run, counts, entered, left⟩ := five_in_hand
  obtain ⟨_, whole, fits⟩ := pipeline_conserves inRow_fresh (inRow_pipeline 0) run counts
  exact ⟨taken, f, run, by omega, fits⟩

end Flowgraph

end TorchDsp
