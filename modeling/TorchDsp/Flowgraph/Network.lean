import Mathlib.Data.List.Perm.Basic
import TorchDsp.Executor.OneBlock
import TorchDsp.Flowgraph.Blocked
import TorchDsp.Flowgraph.Views

/-! # Schedulers of one block each

Each scheduler runs one block, from a buffer into one that no other scheduler writes.
A buffer may have any number of readers, and the blocks may form a loop. In any
interleaving, every scheduler consumes each item once and in order, no reader passes
the writer, and no buffer is overfilled (`TorchDsp.Flowgraph.network_safe`).
-/

namespace TorchDsp

open GraphExecutor

namespace Interleaving

variable {σ₀ σ σ' : Interleaving} {b : Block} {w : BlockWorkInput} {r : BufferReader}
  {v : BlockWorkOutput} {k source : Nat}

/-! ## A block among others -/

/-- The block reads one buffer, with a limit that is not negative as an `int`. -/
def Limited (source : Nat) (σ : Interleaving) : Prop :=
  ∀ r, σ.group.reader 0 0 = some r → r.source = source ∧ 0 ≤ intOfSize r.maxBufferRead

private theorem Limited.of_wiring {g' : Group} {point : GraphExecutor.Point}
    (limited : Limited source σ) (wiring : SameWiring σ.group g') : Limited source ⟨g', point⟩ := by
  intro r' reads'
  have both := wiring 0 0
  rw [reads', Option.map_some] at both
  obtain ⟨r, reads, same⟩ := Option.map_eq_some_iff.mp both.symm
  obtain ⟨source, _, most, _⟩ := BufferReader.mk.inj same
  rw [← source, ← most]
  exact limited r reads

/-- A limit that is not negative offers no more than there is. -/
theorem Limited.backed (limited : Limited source σ) : σ.Backed :=
  fun _ r _ reads _ => Or.inl (limited r reads).2

/-- The state of a block on its way, with what a turn keeps. -/
structure Underway (σ₀ : Interleaving) (source k : Nat) (σ : Interleaving) : Prop where
  counted : ∃ b w r v, Counted σ₀ σ b w r v k
  behind : σ.StaysBehind
  limited : Limited source σ

/-- A turn keeps a block on its way and consumes the items that follow. -/
theorem Underway.moved {turn : Turn} (underway : Underway σ₀ source k σ)
    (moved : Moved σ turn σ') (reports : ReportsOneCount ⟨σ, turn, σ'⟩) :
    Underway σ₀ source k σ' ∧ σ.frontier ≤ σ'.frontier ∧
      consumedBy ⟨σ, turn, σ'⟩ = List.range' σ.frontier (σ'.frontier - σ.frontier) := by
  obtain ⟨⟨b, w, r, v, counted⟩, behind, limited⟩ := underway
  cases moved with
  | resume answers resumes =>
      have phase := phase_of_resume counted.one resumes
      have count := reports answers rfl
      exact ⟨⟨counted.phase phase count, behind.phase counted phase count limited.backed,
        limited.of_wiring (effect_of_resume resumes).wiring⟩, frontier_phase counted.one phase _⟩
  | neighbours _ moved =>
      obtain ⟨same, none, stays⟩ := frontier_neighbours moved turn
      refine ⟨⟨⟨b, w, r, v, counted.neighbours moved⟩, stays behind, limited.of_wiring ?_⟩,
        Nat.le_of_eq same.symm, ?_⟩
      · intro p i
        rw [Group.reader, Group.input, moved.blocks]
        rfl
      · rw [none, same, Nat.sub_self, List.range'_zero]

/-- A block among others keeps its account, and consumes what lies between its
frontiers. -/
theorem Underway.of_run {taken : List (Transition.Taken Interleaving Turn)}
    (run : Transition.Run Moved σ taken σ') (underway : Underway σ₀ source k σ)
    (counts : ∀ t ∈ taken, ReportsOneCount t) :
    Underway σ₀ source k σ' ∧ σ.frontier ≤ σ'.frontier ∧
      taken.flatMap consumedBy = List.range' σ.frontier (σ'.frontier - σ.frontier) := by
  induction run with
  | nil σ => exact ⟨underway, Nat.le_refl _, by simp⟩
  | @cons σ middle σ' turn rest moved _ ih =>
      obtain ⟨after, ahead, first⟩ := underway.moved moved (counts _ List.mem_cons_self)
      obtain ⟨final, onward, later⟩ :=
        ih after fun t member => counts t (List.mem_cons_of_mem _ member)
      refine ⟨final, Nat.le_trans ahead onward, ?_⟩
      have whole : σ'.frontier - σ.frontier =
          (middle.frontier - σ.frontier) + (σ'.frontier - middle.frontier) := by omega
      rw [List.flatMap_cons, first, later, whole, ← List.range'_append_1,
        Nat.add_sub_cancel' ahead]

end Interleaving

namespace Flowgraph

variable {n : Nat} {opts : Fin n → SchedulerTritonOptions} {wiring : Wiring n}
  {f f' f₀ : Flowgraph n} {act : Act n} {u : Fin n} {k : Nat}

/-! ## What a buffer holds -/

/-- The least of the totals is below each of them. -/
theorem foldr_min_le_of_mem {reads : List Nat} {read most : Nat} (listed : read ∈ reads) :
    reads.foldr min most ≤ read := by
  induction reads with
  | nil => cases listed
  | cons first rest ih =>
      rw [List.foldr_cons]
      rcases List.mem_cons.mp listed with rfl | later
      · exact Nat.min_le_left _ _
      · exact Nat.le_trans (Nat.min_le_right _ _) (ih later)

/-- All schedulers agree on what a buffer holds. -/
theorem itemsHeld_group (f : Flowgraph n) (u : Fin n) (k : Nat) :
    (f.group u).itemsHeld k = f.itemsHeld k := by
  have erased : (List.finRange n).filter (· ≠ u) = (List.finRange n).erase u := by
    rw [List.Nodup.erase_eq_filter (List.nodup_finRange n)]
    exact List.filter_congr fun v _ => by by_cases same : v = u <;> simp [same]
  have split : List.Perm (List.finRange n) (u :: (List.finRange n).filter (· ≠ u)) := by
    rw [erased]
    exact List.perm_cons_erase (List.mem_finRange u)
  have all := (split.flatMap_right fun v => Block.readsOf (f.schedulers v).blocks k).append_right
    (f.buffers k).outsideReads
  rw [List.flatMap_cons, List.append_assoc] at all
  have least : ((f.group u).readsOf k).foldr min (f.buffers k).totalWritten =
      ((List.finRange n).flatMap (fun v => Block.readsOf (f.schedulers v).blocks k) ++
        (f.buffers k).outsideReads).foldr min (f.buffers k).totalWritten :=
    (all.foldr_eq _).symm
  unfold Group.itemsHeld itemsHeld
  exact congrArg ((f.buffers k).totalWritten - ·) least

/-- No step moves a reader back. -/
theorem Moved.reads (moved : Moved opts wiring f act f') (k : Nat) :
    (∀ v, List.Forall₂ (· ≤ ·) (Block.readsOf (f.schedulers v).blocks k)
      (Block.readsOf (f'.schedulers v).blocks k)) ∧
    List.Forall₂ (· ≤ ·) (f.buffers k).outsideReads (f'.buffers k).outsideReads := by
  constructor
  · intro v
    rcases moved.inside v with ⟨same, _⟩ | ⟨same, _⟩ | ⟨answers, g, point, _, _, resumes, rfl⟩
    · rw [same]
      exact List.forall₂_refl _
    · rw [same]
      exact List.forall₂_refl _
    · rw [advance_self]
      exact (effect_of_resume resumes).readsOf k
  · cases moved with
    | deliver u answers iterates v msg rest sends f₁ popped thread arrives =>
        subst popped
        exact List.forall₂_refl _
    | finish | phase | thread => exact List.forall₂_refl _
    | outside act j buffer foreign grown limits reads =>
        by_cases same : k = j
        · subst same
          dsimp only
          rw [Function.update_self]
          exact reads
        · dsimp only
          rw [Function.update_of_ne same]
          exact List.forall₂_refl _

private theorem Moved.totalWritten_le (moved : Moved opts wiring f act f') (k : Nat) :
    (f.buffers k).totalWritten ≤ (f'.buffers k).totalWritten := by
  cases moved with
  | deliver u answers iterates v msg rest sends f₁ popped thread arrives =>
      subst popped
      exact Nat.le_refl _
  | finish | thread => exact Nat.le_refl _
  | phase u answers iterates sent inside g point resumes =>
      exact ((effect_of_resume resumes).totalWritten k).1
  | outside act j buffer foreign grown limits reads =>
      by_cases same : k = j
      · subst same
        dsimp only
        rw [Function.update_self]
        exact grown
      · dsimp only
        rw [Function.update_of_ne same]

/-- Publishing adds no more than what is published to what a buffer holds. -/
theorem Moved.itemsHeld_le (moved : Moved opts wiring f act f') (k : Nat) :
    f'.itemsHeld k ≤ f.itemsHeld k +
      ((f'.buffers k).totalWritten - (f.buffers k).totalWritten) := by
  obtain ⟨reads, outside⟩ := moved.reads k
  have same : List.Forall₂ (· = ·) (List.finRange n) (List.finRange n) :=
    List.forall₂_same.mpr fun v _ => rfl
  have inside : List.Forall₂ (· ≤ ·)
      ((List.finRange n).flatMap fun v => Block.readsOf (f.schedulers v).blocks k)
      ((List.finRange n).flatMap fun v => Block.readsOf (f'.schedulers v).blocks k) :=
    List.rel_flatMap same fun v w here => here ▸ reads v
  have all := List.rel_append inside outside
  have grown := moved.totalWritten_le k
  have least := Interleaving.foldr_min_le all grown
  dsimp only at least
  unfold itemsHeld
  omega

/-- A buffer that no scheduler writes is never overfilled. -/
theorem Moved.itemsHeld_foreign (moved : Moved opts wiring f act f') (foreign : f.Foreign k)
    (holds : f.itemsHeld k ≤ (f.buffers k).bufSize) :
    f'.itemsHeld k ≤ (f.buffers k).bufSize := by
  refine Nat.le_trans (moved.itemsHeld_le k) ?_
  by_cases same : (f'.buffers k).totalWritten = (f.buffers k).totalWritten
  · rw [same, Nat.sub_self]
    exact holds
  · rcases moved.written same with ⟨_, room⟩ | ⟨v, _, _, _, _, _, _, _, listed⟩
    · exact room
    · exact (foreign v listed).elim

/-! ## Networks -/

/-- Each scheduler runs one block, which reads one buffer, with a limit that is not
negative as an `int`, and writes another one, which it has for itself. -/
structure Network (f : Flowgraph n) (source sink : Fin n → Nat) : Prop where
  block : ∀ u : Fin n, ∃ b w r v, (f.group u).OneBlock b w r v (sink u) ∧ r.source = source u ∧
    0 ≤ intOfSize r.maxBufferRead
  apart : ∀ u v, sink u = sink v → u = v

/-- Nothing has run and nothing has come in. -/
structure Fresh (f : Flowgraph n) : Prop where
  starting : f.Starting
  unwritten : ∀ k, (f.buffers k).totalWritten = 0
  unread : ∀ u r, (f.group u).reader 0 0 = some r → r.totalRead = 0

section Network

variable {source sink : Fin n → Nat}

/-- A scheduler writes its sink alone. -/
theorem Network.outputBuffers (network : f.Network source sink) (u : Fin n) :
    outputBuffers (f.schedulers u).blocks = [sink u] := by
  obtain ⟨b, w, r, v, one, _⟩ := network.block u
  exact one.outputBuffers

/-- Every sink has one writer. -/
theorem Network.writersApart (network : f.Network source sink) : f.WritersApart := by
  intro u v k first second
  rw [network.outputBuffers] at first second
  exact network.apart u v ((List.mem_singleton.mp first).symm.trans (List.mem_singleton.mp second))

/-- A block before anything has come in. -/
theorem Network.underway (network : f.Network source sink) (fresh : f.Fresh) (u : Fin n) :
    Interleaving.Underway (f.view u) (source u) (sink u) (f.view u) ∧ (f.view u).totalRead = 0 ∧
      (f.view u).totalWritten = 0 ∧ (f.view u).frontier = 0 := by
  obtain ⟨b, w, r, v, one, reads, limit⟩ := network.block u
  have written (k : Nat) : ((f.group u).buffers k).totalWritten = 0 := fresh.unwritten k
  have rests : (f.view u).Resting := by
    refine ⟨⟨b, w, r, v, sink u, one⟩, fresh.starting.point u, fun k attached => ?_,
      fun r' attached => ?_⟩
    · change (f.group u).itemsHeld k ≤ _
      rw [Group.itemsHeld, written, Nat.zero_sub]
      exact Nat.zero_le _
    · rw [fresh.unread u r' attached]
      exact Nat.zero_le _
  obtain ⟨⟨b', w', r', v', k, counted⟩, behind, atStart⟩ := rests.counted
  have same : k = sink u :=
    Option.some.inj (counted.one.bufferOf.symm.trans one.bufferOf)
  subst same
  have read : (f.view u).totalRead = 0 := by
    rw [Interleaving.totalRead]
    change ((f.group u).reader 0 0).elim 0 BufferReader.totalRead = 0
    rw [one.readerOf]
    exact fresh.unread u r one.readerOf
  refine ⟨⟨⟨b', w', r', v', counted⟩, behind, fun r' attached => ?_⟩, read, ?_, ?_⟩
  · cases one.readerOf.symm.trans attached
    exact ⟨reads, limit⟩
  · rw [Interleaving.totalWritten]
    change ((f.group u).outputBuffer 0 0).elim 0 _ = 0
    rw [one.bufferOf]
    exact written (sink u)
  · rw [atStart, read]

end Network

section Runs

variable {taken : List (Transition.Taken (Flowgraph n) (Act n))} {source sink : Fin n → Nat}

/-- The blocks report one count in every call. -/
def ReportOneCount (taken : List (Transition.Taken (Flowgraph n) (Act n))) : Prop :=
  ∀ t ∈ taken, ∀ u, Interleaving.ReportsOneCount (seenBy u t)

/-- Along a run every block consumes all items up to where it stands, in their order. -/
theorem Network.underway_of_run (network : f₀.Network source sink) (fresh : f₀.Fresh)
    (run : Transition.Run (Step opts wiring) f₀ taken f) (counts : ReportOneCount taken)
    (u : Fin n) :
    Interleaving.Underway (f₀.view u) (source u) (sink u) (f.view u) ∧
      taken.flatMap (fun t => Interleaving.consumedBy (seenBy u t)) =
        List.range (f.view u).frontier := by
  obtain ⟨underway, _, _, start⟩ := network.underway fresh u
  obtain ⟨after, _, consumed⟩ := underway.of_run (run_seenBy run network.writersApart u)
    (fun seen listed => by
      obtain ⟨t, member, rfl⟩ := List.mem_map.mp listed
      exact counts t member u)
  refine ⟨after, ?_⟩
  rw [start, Nat.sub_zero, List.flatMap_map] at consumed
  rw [consumed, List.range_eq_range']

/-- How a scheduler stands between its buffers. -/
structure StageAccount (f₀ f : Flowgraph n) (u : Fin n) (source sink : Nat) : Prop where
  behind : (f.view u).frontier ≤ (f.buffers source).totalWritten
  published : (f.view u).frontier = (f.buffers sink).totalWritten + (f.view u).unpublished
  front : (f.buffers source).totalWritten - (f.view u).frontier ≤ f.itemsHeld source
  back : (f.view u).unpublished + f.itemsHeld sink ≤ (f₀.buffers sink).bufSize

/-- What a block has in hand has its place in the next buffer. -/
theorem unpublished_fits {σ₀ σ : Interleaving} {b : Block} {w : BlockWorkInput}
    {r : BufferReader} {v : BlockWorkOutput} (counted : Interleaving.Counted σ₀ σ b w r v k) :
    σ.unpublished ≤ σ.group.spaceAvailable k := by
  obtain ⟨g, point⟩ := σ
  cases point with
  | worked l =>
      rw [(Interleaving.unpublished_of_one counted.one l).1]
      exact counted.room l (Or.inl rfl)
  | released l =>
      rw [(Interleaving.unpublished_of_one counted.one l).2]
      exact counted.room l (Or.inr rfl)
  | _ => exact Nat.zero_le _

/-- After a run every scheduler stands between its source and its sink. -/
theorem Network.stage_of_run (network : f₀.Network source sink) (fresh : f₀.Fresh)
    (run : Transition.Run (Step opts wiring) f₀ taken f) (counts : ReportOneCount taken)
    (u : Fin n) : StageAccount f₀ f u (source u) (sink u) := by
  obtain ⟨_, read, written, _⟩ := network.underway fresh u
  obtain ⟨⟨⟨b, w, r, v, counted⟩, behind, limited⟩, _⟩ :=
    network.underway_of_run fresh run counts u
  have one : (f.group u).OneBlock b w r v (sink u) := counted.one
  have reads := (limited r one.readerOf).1
  have frontier : (f.view u).frontier = r.totalRead + (f.view u).unreleased :=
    congrArg (· + _) (Interleaving.totalRead_of_one one _)
  have whole : (f.view u).totalWritten = (f.buffers (sink u)).totalWritten :=
    Interleaving.totalWritten_of_one one _
  have passed : r.totalRead + (f.view u).unreleased ≤ (f.buffers (source u)).totalWritten := by
    have ahead := behind r one.readerOf
    rw [reads] at ahead
    exact ahead
  have unread : (f.buffers (source u)).totalWritten - r.totalRead ≤ f.itemsHeld (source u) := by
    rw [← itemsHeld_group f u]
    refine Nat.sub_le_sub_left (foldr_min_le_of_mem (List.mem_append_left _ ?_)) _
    rw [one.blocks, List.flatMap_singleton, one.inputs]
    simp [one.reader, reads]
  have fits := unpublished_fits counted
  have holds := counted.holds
  rw [Group.spaceAvailable_eq] at fits
  change (f.view u).unpublished ≤ (f.buffers (sink u)).bufSize - (f.group u).itemsHeld (sink u)
    at fits
  change (f.group u).itemsHeld (sink u) ≤ (f.buffers (sink u)).bufSize at holds
  rw [itemsHeld_group, (sameLimits_of_run run (sink u)).bufSize] at fits holds
  have published := counted.published
  exact ⟨by omega, by omega, by omega, by omega⟩

/-- A buffer that is filled from outside is not overfilled. -/
theorem Fresh.itemsHeld_of_run (fresh : f₀.Fresh)
    (run : Transition.Run (Step opts wiring) f₀ taken f) (foreign : f₀.Foreign k) :
    f.itemsHeld k ≤ (f₀.buffers k).bufSize := by
  have start : f₀.itemsHeld k ≤ (f₀.buffers k).bufSize := by
    unfold itemsHeld
    rw [fresh.unwritten, Nat.zero_sub]
    exact Nat.zero_le _
  have along := run.invariant_of_step
    (fun τ => SameWires f₀ τ ∧ SameLimits f₀ τ k ∧ τ.itemsHeld k ≤ (f₀.buffers k).bufSize)
    ⟨fun _ => rfl, ⟨rfl, rfl, rfl, rfl⟩, start⟩
    fun before act after step ⟨wires, limits, holds⟩ => by
      have still : before.Foreign k := fun v listed =>
        foreign v (wires.outputBuffers v ▸ listed)
      have next := step.moved.sameLimits k
      refine ⟨fun u => (step.moved.sameWires u).trans (wires u),
        ⟨next.bufSize.trans limits.bufSize, next.most.trans limits.most,
          next.least.trans limits.least, next.readers.trans limits.readers⟩, ?_⟩
      rw [← limits.bufSize] at holds ⊢
      exact step.moved.itemsHeld_foreign still holds
  exact along.2.2

/-- **Shared buffers are safe.** Whatever the interleaving and however many schedulers
read a buffer, each consumes its items once and in order and does not pass the writer,
what it has in hand has a place in the buffer that it writes, and no buffer is
overfilled. -/
theorem network_safe (network : f₀.Network source sink) (fresh : f₀.Fresh)
    (run : Transition.Run (Step opts wiring) f₀ taken f) (counts : ReportOneCount taken) :
    (∀ u : Fin n, taken.flatMap (fun t => Interleaving.consumedBy (seenBy u t)) =
        List.range (f.view u).frontier ∧ StageAccount f₀ f u (source u) (sink u)) ∧
      ∀ k, f.itemsHeld k ≤ (f₀.buffers k).bufSize := by
  have stage := network.stage_of_run fresh run counts
  refine ⟨fun u => ⟨(network.underway_of_run fresh run counts u).2, stage u⟩, fun k => ?_⟩
  by_cases foreign : f₀.Foreign k
  · exact fresh.itemsHeld_of_run run foreign
  · obtain ⟨u, listed⟩ := not_forall_not.mp foreign
    rw [network.outputBuffers] at listed
    obtain rfl := List.mem_singleton.mp listed
    exact Nat.le_trans (Nat.le_add_left _ _) (stage u).back

end Runs

/-! ## Runs without calls -/

section Quiet

variable {taken later : List (Transition.Taken (Flowgraph n) (Act n))}

/-- No call of `do_work` is asked for. -/
def unasked : Answers := { reports := fun _ => [] }

/-- A step without a call of `do_work`. -/
def Act.Quiet (act : Act n) : Prop :=
  ∀ v answers, act = .turn v answers → answers = unasked

/-- Steps without calls have no counts. -/
theorem reportOneCount_of_quiet (quiet : ∀ t ∈ taken, t.label.Quiet) : ReportOneCount taken := by
  intro t member u answers asked _ report listed
  have silent : answers = unasked := by
    change t.label.seenBy u = _ at asked
    have known := quiet t member
    cases label : t.label with
    | turn v own =>
        rw [label, Act.seenBy] at asked
        split at asked <;> cases asked
        exact known v _ label
    | push | openGate | requestStop | publish | release =>
        rw [label] at asked
        cases asked
  rw [silent] at listed
  exact (List.not_mem_nil listed).elim

/-- A call that reports one count, where the other schedulers rest. -/
theorem reportOneCount_of_turn {v : Fin n} {answers : Answers}
    (count : ∀ report ∈ answers.reports 0, Interleaving.OneCount (f.group v) report) :
    ReportOneCount [⟨f, .turn v answers, f'⟩] := by
  intro t member u own asked _ report listed
  cases List.mem_singleton.mp member
  change (Act.turn v answers).seenBy u = _ at asked
  rw [Act.seenBy] at asked
  split at asked <;> cases asked
  rename_i same
  subst same
  exact count report listed

/-- Reports of one count in two runs are so in both together. -/
theorem ReportOneCount.append (front : ReportOneCount taken) (back : ReportOneCount later) :
    ReportOneCount (taken ++ later) :=
  fun t member => (List.mem_append.mp member).elim (front t) (back t)

/-- Follow quiet steps. -/
theorem run_of_quiet {acts : List (Act n)}
    (follows : Transition.follow (next opts wiring) f acts = some f')
    (quiet : ∀ act ∈ acts, act.Quiet) : ∃ taken,
      Transition.Run (Step opts wiring) f taken f' ∧ ReportOneCount taken := by
  obtain ⟨taken, run, labels⟩ := Transition.Run.of_follow follows
  exact ⟨taken, run, reportOneCount_of_quiet fun t member =>
    quiet _ (labels ▸ List.mem_map_of_mem member)⟩

end Quiet

/-! ## One writer and two readers -/

/-- The first scheduler writes the buffer that all the others read. -/
def fanOut (n : Nat) : Flowgraph n where
  schedulers := fun u => {
    thread := .initial u
    blocks := [{ kind := .triton true, inputs := [{ bufp := some ⟨min u.val 1, 0, 0, 0⟩ }]
                 outputs := [{ bufp := some (u.val + 1) }] }] }
  buffers := fun _ => { bufSize := 16, totalWritten := 0 }

/-- The first scheduler is connected to all the others. -/
def toTheOthers (n : Nat) : Wiring n where
  readers := fun u _ => if u.val = 0 then (List.finRange n).filter (0 < ·.val) else []
  writers := fun u _ => if u.val = 0 then [] else (List.finRange n).filter (·.val = 0)

private theorem fanOut_fresh (n : Nat) : (fanOut n).Fresh := by
  refine ⟨⟨fun u => ⟨u, rfl⟩, fun _ => rfl, fun _ => rfl⟩, fun _ => rfl, fun u r reads => ?_⟩
  cases reads
  rfl

private theorem fanOut_network (n : Nat) :
    (fanOut n).Network (fun u => min u.val 1) (fun u => u.val + 1) := by
  refine ⟨fun u => ⟨_, _, _, _, ⟨rfl, rfl, rfl, rfl, rfl, rfl, ?_⟩, rfl,
    (by decide : 0 ≤ intOfSize 0)⟩, fun _ _ same => Fin.ext (Nat.add_right_cancel same)⟩
  have least := Nat.min_le_left u.val 1
  change min u.val 1 ≠ u.val + 1
  omega

/-- Five items for two readers, of which one has released them. -/
theorem five_for_two : ∃ taken f,
    Transition.Run (Step (fun _ => {}) (toTheOthers 3)) (fanOut 3) taken f ∧
      ReportOneCount taken ∧ f.itemsHeld 1 = 5 ∧ (f.view 1).frontier = 5 ∧
      (f.view 2).frontier = 5 := by
  have quiet (v : Fin 3) (turns : Nat) :
      ∀ act ∈ List.replicate turns (Act.turn v unasked), act.Quiet := by
    intro act member v answers same
    rw [List.eq_of_mem_replicate member] at same
    cases same
    rfl
  have opened (v : Fin 3) (turns : Nat) :
      ∀ act ∈ .openGate v :: List.replicate turns (Act.turn v unasked), act.Quiet :=
    List.forall_mem_cons.mpr ⟨fun _ _ absurd => by (cases absurd), quiet v turns⟩
  obtain ⟨f₀, f₁, f₂, f₃, f₄, f₅, f₆, comes, first, passes, second, wakes, third, rest, count,
      count', count'', facts⟩ : ∃ f₀ f₁ f₂ f₃ f₄ f₅ f₆,
        Transition.follow (next (fun _ => {}) (toTheOthers 3)) (fanOut 3)
          (.publish 0 5 :: .push 0 (.action .notifyAll) :: .openGate 0 ::
            List.replicate 10 (.turn 0 unasked)) = some f₀ ∧
        Step (fun _ => {}) (toTheOthers 3) f₀ (.turn 0 (moving 5)) f₁ ∧
        Transition.follow (next (fun _ => {}) (toTheOthers 3)) f₁
          (List.replicate 4 (.turn 0 unasked) ++
            .openGate 1 :: List.replicate 10 (.turn 1 unasked)) = some f₂ ∧
        Step (fun _ => {}) (toTheOthers 3) f₂ (.turn 1 (moving 5)) f₃ ∧
        Transition.follow (next (fun _ => {}) (toTheOthers 3)) f₃
          (.openGate 2 :: List.replicate 10 (.turn 2 unasked)) = some f₄ ∧
        Step (fun _ => {}) (toTheOthers 3) f₄ (.turn 2 (moving 5)) f₅ ∧
        Transition.follow (next (fun _ => {}) (toTheOthers 3)) f₅
          (List.replicate 2 (.turn 1 unasked)) = some f₆ ∧
        (∀ report ∈ (moving 5).reports 0, Interleaving.OneCount (f₀.group 0) report) ∧
        (∀ report ∈ (moving 5).reports 0, Interleaving.OneCount (f₂.group 1) report) ∧
        (∀ report ∈ (moving 5).reports 0, Interleaving.OneCount (f₄.group 2) report) ∧
        f₆.itemsHeld 1 = 5 ∧ (f₆.view 1).frontier = 5 ∧ (f₆.view 2).frontier = 5 := by
    refine ⟨_, _, _, _, _, _, _, rfl, rfl, rfl, rfl, rfl, rfl, rfl, fun _ => ?_, fun _ => ?_,
      fun _ => ?_, rfl, rfl, rfl⟩ <;>
    · exact Interleaving.oneCount_moving ⟨rfl, rfl, rfl, rfl, rfl, rfl, by decide⟩
        (by decide) (by decide)
  obtain ⟨_, comes, counts₀⟩ := run_of_quiet comes (List.forall_mem_cons.mpr
    ⟨fun _ _ absurd => by (cases absurd), List.forall_mem_cons.mpr
      ⟨fun _ _ absurd => by (cases absurd), opened 0 10⟩⟩)
  obtain ⟨_, passes, counts₁⟩ := run_of_quiet passes
    (List.forall_mem_append.mpr ⟨quiet 0 4, opened 1 10⟩)
  obtain ⟨_, wakes, counts₂⟩ := run_of_quiet wakes (opened 2 10)
  obtain ⟨_, rest, counts₃⟩ := run_of_quiet rest (quiet 1 2)
  exact ⟨_, f₆, comes.append <| (Transition.Run.single first).append <| passes.append <|
      (Transition.Run.single second).append <| wakes.append <|
        (Transition.Run.single third).append rest,
    counts₀.append <| (reportOneCount_of_turn count).append <| counts₁.append <|
      (reportOneCount_of_turn count').append <| counts₂.append <|
        (reportOneCount_of_turn count'').append counts₃, facts⟩

/-- Both have consumed the same items, and the buffer keeps them for the slower one. -/
theorem five_for_each : ∃ taken f,
    Transition.Run (Step (fun _ => {}) (toTheOthers 3)) (fanOut 3) taken f ∧
      taken.flatMap (fun t => Interleaving.consumedBy (seenBy 1 t)) = [0, 1, 2, 3, 4] ∧
      taken.flatMap (fun t => Interleaving.consumedBy (seenBy 2 t)) = [0, 1, 2, 3, 4] ∧
      f.itemsHeld 1 = 5 ∧ f.itemsHeld 1 ≤ ((fanOut 3).buffers 1).bufSize := by
  obtain ⟨taken, f, run, counts, held, first, second⟩ := five_for_two
  obtain ⟨stages, fits⟩ := network_safe (fanOut_network 3) (fanOut_fresh 3) run counts
  refine ⟨taken, f, run, ?_, ?_, held, fits 1⟩
  · rw [(stages 1).1, first]
    rfl
  · rw [(stages 2).1, second]
    rfl

end Flowgraph

end TorchDsp
