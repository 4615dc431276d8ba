import TorchDsp.Executor.Interleaving

/-! # The account of one block

Between neighbours that move at any time, a group of one block with one input and
one output publishes what it consumes, nothing twice and nothing lost, within the
capacity of its output. Its reader stays behind the writer where the counts on
offer are backed by unread items (`TorchDsp.Interleaving.one_block_accounted`).
-/

namespace TorchDsp

open GraphExecutor

namespace Interleaving

variable {answers : Answers} {g : Group} {b : Block} {w : BlockWorkInput} {r : BufferReader}
  {v : BlockWorkOutput} {k : Nat}

/-! ## The totals -/

/-- How far the reader of the block has come. -/
def totalRead (σ : Interleaving) : Nat :=
  (σ.group.reader 0 0).elim 0 BufferReader.totalRead

/-- What the block has published. -/
def totalWritten (σ : Interleaving) : Nat :=
  (σ.group.outputBuffer 0 0).elim 0 fun k => (σ.group.buffers k).totalWritten

/-- What the block has consumed and not released yet. -/
def unreleased (σ : Interleaving) : Nat :=
  match σ.point with
  | .worked _ => (σ.group.input 0 0).elim 0 BlockWorkInput.nConsumed
  | _ => 0

/-- What the block has produced and not published yet. -/
def unpublished (σ : Interleaving) : Nat :=
  match σ.point with
  | .worked _ | .released _ => (σ.group.output 0 0).elim 0 BlockWorkOutput.nProduced
  | _ => 0

/-- The item that the block consumes next. -/
def frontier (σ : Interleaving) : Nat :=
  σ.totalRead + σ.unreleased

/-- The items that a turn consumes. -/
def consumedBy (t : Transition.Taken Interleaving Turn) : List Nat :=
  match t.source.point, t.target.point with
  | .outputsChecked, .worked _ => List.range' t.source.totalRead t.target.unreleased
  | _, _ => []

/-- The reader has not passed the writer of its buffer. -/
def ReadsBehind (σ : Interleaving) : Prop :=
  ∀ r, σ.group.reader 0 0 = some r → r.totalRead ≤ (σ.group.buffers r.source).totalWritten

/-- The output buffer holds no more than its capacity. -/
def HoldsWithin (σ : Interleaving) : Prop :=
  ∀ k, σ.group.outputBuffer 0 0 = some k → σ.group.itemsHeld k ≤ (σ.group.buffers k).bufSize

/-- The counts on offer at the start of the work are backed by unread items. -/
def Backed (σ : Interleaving) : Prop :=
  σ.point = .outputsChecked → ∀ r v, σ.group.reader 0 0 = some r → σ.group.output 0 0 = some v →
    0 ≤ intOfSize r.maxBufferRead ∨ v.nItems ≤ σ.group.itemsAvailable r

/-- A report of one count, at most the counts on offer, on both ports; zero where
items were insufficient. -/
structure OneCount (g : Group) (report : WorkReport) : Prop where
  accepted : report.ret = .ok ∨ report.ret = .done → report.consumed 0 = report.produced 0 ∧
    (∀ w, g.input 0 0 = some w → report.consumed 0 ≤ w.nItems) ∧
    ∀ v, g.output 0 0 = some v → report.consumed 0 ≤ v.nItems
  insufficient : report.ret = .insufficientInputItems ∨ report.ret = .insufficientOutputItems →
    report.consumed 0 = 0 ∧ report.produced 0 = 0

/-- The block reports one count in every call of a turn. -/
def ReportsOneCount (t : Transition.Taken Interleaving Turn) : Prop :=
  ∀ answers, t.label = .resume answers → t.source.point = .outputsChecked →
    ∀ report ∈ answers.reports 0, OneCount t.source.group report

/-- A group of one block between two iterations. -/
structure Resting (σ : Interleaving) : Prop where
  one : ∃ b w r v k, σ.group.OneBlock b w r v k
  start : σ.point = .start
  holds : σ.HoldsWithin
  behind : σ.ReadsBehind

/-- What a block has done since a state between two iterations. -/
structure Accounted (σ₀ : Interleaving) (taken : List (Transition.Taken Interleaving Turn))
    (σ : Interleaving) : Prop where
  behind : σ.ReadsBehind
  holds : σ.HoldsWithin
  /-- What is consumed and not on its way is published. -/
  published : σ.frontier + σ₀.totalWritten = σ₀.totalRead + σ.totalWritten + σ.unpublished
  /-- Every item is consumed once, in order. -/
  once : taken.flatMap consumedBy = List.range' σ₀.totalRead (σ.frontier - σ₀.totalRead)

/-! ## What a turn preserves -/

/-- The count that the input check has placed: at most the unread items, unless
the limit is negative as an `int`. -/
structure Sampled (g : Group) (w : BlockWorkInput) (r : BufferReader) : Prop where
  backed : 0 ≤ intOfSize r.maxBufferRead → w.nItems ≤ g.itemsAvailable r
  unbacked : intOfSize r.maxBufferRead < 0 → intMax ≤ w.nItems

private theorem sampled_inputCount : Sampled g { w with nItems := inputCount g r } r := by
  constructor
  · intro limit
    change inputCount g r ≤ g.itemsAvailable r
    unfold inputCount sizeOfInt
    dsimp only
    split <;> omega
  · intro limit
    have set : 0 < r.maxBufferRead := by
      apply Nat.pos_of_ne_zero
      intro zero
      rw [zero] at limit
      exact absurd limit (by decide)
    have above : (g.itemsAvailable r : Int) > intOfSize r.maxBufferRead := by omega
    change intMax ≤ inputCount g r
    unfold inputCount
    dsimp only
    rw [if_pos ⟨set, above⟩]
    unfold intOfSize sizeOfInt intMax at *
    have least := Int.le_bmod (x := r.maxBufferRead) (m := 2 ^ 32) (by decide)
    omega

/-- The slowest of readers that only move on does not move back. -/
theorem foldr_min_le {reads reads' : List Nat} {most most' : Nat}
    (ahead : List.Forall₂ (· ≤ ·) reads reads') (grown : most ≤ most') :
    reads.foldr min most ≤ reads'.foldr min most' := by
  induction ahead with
  | nil => exact grown
  | cons first _ ih =>
      rw [List.foldr_cons, List.foldr_cons]
      omega

/-- Publishing items adds no more than these to what a buffer holds. -/
theorem itemsHeld_publish {n : Nat} (one : g.OneBlock b w r v k) :
    Group.itemsHeld
        { g with buffers := Function.update g.buffers k (postWrite n (g.buffers k)) } k ≤
      g.itemsHeld k + n := by
  have least := foldr_min_le (List.forall₂_refl (g.buffers k).outsideReads)
    (Nat.le_add_right (g.buffers k).totalWritten n)
  rw [one.itemsHeld, (one.setBuffers _).itemsHeld]
  simp only [Function.update_self, postWrite]
  omega

/-- The neighbours leave a group of one block more to read and more room. -/
theorem neighbours_one {g' : Group} (one : g.OneBlock b w r v k) (moved : Neighbours g g') :
    g.itemsAvailable r ≤ g'.itemsAvailable r ∧ g'.itemsHeld k ≤ g.itemsHeld k ∧
      (g'.buffers k).totalWritten = (g.buffers k).totalWritten ∧
      (g'.buffers k).bufSize = (g.buffers k).bufSize := by
  have own := moved.own k (by rw [one.outputBuffers]; exact List.mem_singleton_self k)
  refine ⟨Nat.sub_le_sub_right (moved.grown _) _, ?_, own, (moved.limits k).1⟩
  rw [one.itemsHeld, (one.ofBlocks moved.blocks).itemsHeld, own]
  exact Nat.sub_le_sub_left (foldr_min_le (moved.outside k) (Nat.le_refl _)) _

/-- A report that ends the work has one count, at most the counts on offer. -/
theorem OneCount.of_leaves {report : WorkReport} (count : OneCount g report)
    (one : g.OneBlock b w r v k) (leaves : report.leaves true = true) :
    report.consumed 0 = report.produced 0 ∧ report.consumed 0 ≤ w.nItems ∧
      report.consumed 0 ≤ v.nItems := by
  by_cases accepted : report.ret = .ok ∨ report.ret = .done
  · obtain ⟨same, read, written⟩ := count.accepted accepted
    exact ⟨same, read w one.input, written v one.output⟩
  · have insufficient : report.ret = .insufficientInputItems ∨
        report.ret = .insufficientOutputItems := by
      unfold WorkReport.leaves at leaves
      split at leaves <;> simp_all
    obtain ⟨consumed, produced⟩ := count.insufficient insufficient
    rw [consumed, produced]
    exact ⟨rfl, Nat.zero_le _, Nat.zero_le _⟩

/-- How a group of one block stands after a run. -/
structure Counted (σ₀ σ : Interleaving) (b : Block) (w : BlockWorkInput) (r : BufferReader)
    (v : BlockWorkOutput) (k : Nat) : Prop where
  one : σ.group.OneBlock b w r v k
  holds : σ.group.itemsHeld k ≤ (σ.group.buffers k).bufSize
  input : σ.point = .inputsChecked ∨ σ.point = .outputsChecked → Sampled σ.group w r
  output : σ.point = .outputsChecked → v.nItems ≤ σ.group.spaceAvailable k ∧ v.nItems ≤ intMax
  same : ∀ l, σ.point = .worked l → w.nConsumed = v.nProduced
  room : ∀ l, σ.point = .worked l ∨ σ.point = .released l →
    v.nProduced ≤ σ.group.spaceAvailable k
  published : σ.frontier + σ₀.totalWritten = σ₀.totalRead + σ.totalWritten + σ.unpublished

/-- The reader of the one block tells how far the group has read. -/
theorem totalRead_of_one (one : g.OneBlock b w r v k) (point : Point) :
    (mk g point).totalRead = r.totalRead := by
  rw [totalRead, one.readerOf, Option.elim_some]

/-- The buffer of the one block tells how much the group has written. -/
theorem totalWritten_of_one (one : g.OneBlock b w r v k) (point : Point) :
    (mk g point).totalWritten = (g.buffers k).totalWritten := by
  rw [totalWritten, one.bufferOf, Option.elim_some]

/-- Between the work and the commit, what was consumed is not released. -/
theorem unreleased_of_one (one : g.OneBlock b w r v k) (l : Loop) :
    (mk g (.worked l)).unreleased = w.nConsumed := by
  rw [unreleased, one.input, Option.elim_some]

/-- Until the commit of the outputs, what was produced is not published. -/
theorem unpublished_of_one (one : g.OneBlock b w r v k) (l : Loop) :
    (mk g (.worked l)).unpublished = v.nProduced ∧
      (mk g (.released l)).unpublished = v.nProduced := by
  simp only [unpublished, one.output, Option.elim_some, and_self]

/-- Neighbours change nothing about how the group stands. -/
theorem Counted.neighbours {σ₀ σ : Interleaving} {g' : Group} (counted : Counted σ₀ σ b w r v k)
    (moved : Neighbours σ.group g') : Counted σ₀ { σ with group := g' } b w r v k := by
  obtain ⟨more, less, written, size⟩ := neighbours_one counted.one moved
  have one := counted.one.ofBlocks moved.blocks
  have room : σ.group.spaceAvailable k ≤ g'.spaceAvailable k := by
    rw [Group.spaceAvailable_eq, Group.spaceAvailable_eq, size]
    exact Nat.sub_le_sub_left less _
  refine ⟨one, ?_, fun checked => ?_, fun checked => ?_, counted.same, fun l stands => ?_, ?_⟩
  · exact Nat.le_trans less (size ▸ counted.holds)
  · exact ⟨fun limit => Nat.le_trans ((counted.input checked).backed limit) more,
      (counted.input checked).unbacked⟩
  · exact ⟨Nat.le_trans (counted.output checked).1 room, (counted.output checked).2⟩
  · exact Nat.le_trans (counted.room l stands) room
  · have published := counted.published
    simp only [frontier, totalRead, totalWritten, unreleased, unpublished, counted.one.readerOf,
      counted.one.bufferOf, counted.one.input, counted.one.output, one.readerOf, one.bufferOf,
      one.input, one.output, Option.elim_some, written] at published ⊢
    exact published

/-- Every phase of the group keeps the count of its items. -/
theorem Counted.phase {σ₀ σ : Interleaving} {g' : Group} {point' : Point}
    (counted : Counted σ₀ σ b w r v k)
    (phase : Phase answers σ.group b w r v k σ.point g' point')
    (reports : σ.point = .outputsChecked → ∀ report ∈ answers.reports 0, OneCount σ.group report) :
    ∃ b' w' r' v', Counted σ₀ ⟨g', point'⟩ b' w' r' v' k := by
  obtain ⟨one, holds, input, output, same, room, published⟩ := counted
  obtain ⟨g, point⟩ := σ
  rw [frontier, totalRead_of_one one, totalWritten_of_one one] at published
  cases phase with
  | inputBlocked status events | outputBlocked status events | callbacks l status events
  | again status events =>
      refine ⟨b, w, r, v, one, holds, by simp, by simp, by simp, by simp, ?_⟩
      rw [frontier, totalRead_of_one one, totalWritten_of_one one]
      exact published
  | input =>
      have one' := one.setInput (inputCount g r)
      have held := one.itemsHeld_congr one' rfl
      have sampled : Sampled g { w with nItems := inputCount g r } r := sampled_inputCount
      refine ⟨_, _, _, _, one', Nat.le_trans (Nat.le_of_eq held) holds,
        fun _ => ⟨sampled.backed, sampled.unbacked⟩, by simp, by simp, by simp, ?_⟩
      rw [frontier, totalRead_of_one one', totalWritten_of_one one']
      exact published
  | output =>
      have one' := one.setOutput (outputCount g b.outputMultiple k)
      have held := one.itemsHeld_congr one' rfl
      have sampled := input (Or.inl rfl)
      refine ⟨_, _, _, _, one', Nat.le_trans (Nat.le_of_eq held) holds,
        fun _ => ⟨sampled.backed, sampled.unbacked⟩, fun _ => ⟨?_, ?_⟩, by simp, by simp, ?_⟩
      · rw [Group.spaceAvailable_eq, held]
        exact outputCount_le_space g b.outputMultiple k
      · exact outputCount_le_intMax g b.outputMultiple k
      · rw [frontier, totalRead_of_one one', totalWritten_of_one one']
        exact published
  | work report l listed leaves =>
      have one' := one.report report
      have held := one.itemsHeld_congr one' rfl
      obtain ⟨same, _, offered⟩ := (reports rfl report listed).of_leaves one leaves
      refine ⟨_, _, _, _, one', Nat.le_trans (Nat.le_of_eq held) holds, by simp, by simp,
        fun _ _ => same, fun _ _ => ?_, ?_⟩
      · rw [Group.spaceAvailable_eq, held, ← same]
        exact Nat.le_trans offered (output rfl).1
      · rw [frontier, totalRead_of_one one', totalWritten_of_one one', unreleased_of_one one',
          (unpublished_of_one one' l).1]
        change r.totalRead + report.consumed 0 + σ₀.totalWritten =
          σ₀.totalRead + (g.buffers k).totalWritten + report.produced 0
        simp only [unreleased, unpublished] at published
        omega
  | release l l' =>
      have one' := one.postReads
      have held := one.itemsHeld_congr one' rfl
      refine ⟨_, _, _, _, one', Nat.le_trans (Nat.le_of_eq held) holds, by simp, by simp,
        by simp, ?_, ?_⟩
      · rintro l'' (absurd | _)
        · cases absurd
        · rw [Group.spaceAvailable_eq, held]
          exact room l (Or.inl rfl)
      · rw [frontier, totalRead_of_one one', totalWritten_of_one one']
        rw [unreleased_of_one one, (unpublished_of_one one l).1] at published
        rw [(unpublished_of_one one' l').2]
        exact published
  | publish l l' =>
      have one' := one.setBuffers
        (Function.update g.buffers k (postWrite v.nProduced (g.buffers k)))
      have fits := room l (Or.inr rfl)
      refine ⟨_, _, _, _, one', ?_, by simp, by simp, by simp, by simp, ?_⟩
      · have added := itemsHeld_publish (n := v.nProduced) one
        rw [Group.spaceAvailable_eq] at fits
        simp only [Function.update_self, postWrite] at added holds fits ⊢
        omega
      · rw [frontier, totalRead_of_one one', totalWritten_of_one one']
        rw [(unpublished_of_one one l).2] at published
        simp only [unreleased, unpublished, Function.update_self, postWrite] at published ⊢
        omega

/-- A phase consumes the items up to its new frontier. -/
theorem frontier_phase {g' : Group} {point point' : Point} (one : g.OneBlock b w r v k)
    (phase : Phase answers g b w r v k point g' point') (turn : Turn) :
    (mk g point).frontier ≤ (mk g' point').frontier ∧
      consumedBy ⟨⟨g, point⟩, turn, ⟨g', point'⟩⟩ =
        List.range' (mk g point).frontier ((mk g' point').frontier - (mk g point).frontier) := by
  unfold frontier
  rw [totalRead_of_one one]
  cases phase with
  | inputBlocked status events | outputBlocked status events | callbacks l status events
  | again status events =>
      simp [totalRead_of_one one, unreleased, consumedBy]
  | input => simp [totalRead_of_one (one.setInput _), unreleased, consumedBy]
  | output => simp [totalRead_of_one (one.setOutput _), unreleased, consumedBy]
  | work report l listed leaves =>
      rw [totalRead_of_one (one.report report), unreleased_of_one (one.report report)]
      simp [unreleased, consumedBy, totalRead_of_one one, (one.report report).input]
  | release l l' =>
      rw [totalRead_of_one one.postReads, unreleased_of_one one]
      simp [unreleased, consumedBy]
  | publish l l' =>
      rw [totalRead_of_one (one.setBuffers _)]
      simp [unreleased, consumedBy]

/-- The reader stays behind the writer when it releases what is consumed. -/
def StaysBehind (σ : Interleaving) : Prop :=
  ∀ r, σ.group.reader 0 0 = some r →
    r.totalRead + σ.unreleased ≤ (σ.group.buffers r.source).totalWritten

/-- Every phase of the group keeps its reader behind the writer. -/
theorem StaysBehind.phase {σ₀ σ : Interleaving} {g' : Group} {point' : Point}
    (stays : σ.StaysBehind) (counted : Counted σ₀ σ b w r v k)
    (phase : Phase answers σ.group b w r v k σ.point g' point')
    (reports : σ.point = .outputsChecked → ∀ report ∈ answers.reports 0, OneCount σ.group report)
    (backed : σ.Backed) : (mk g' point').StaysBehind := by
  obtain ⟨one, _, input, _, _, _, _⟩ := counted
  obtain ⟨g, point⟩ := σ
  have behind := stays r one.readerOf
  have stands {r' : BufferReader} {σ' : Interleaving} (reader : σ'.group.reader 0 0 = some r')
      (within : r'.totalRead + σ'.unreleased ≤ (σ'.group.buffers r'.source).totalWritten) :
      σ'.StaysBehind := by
    intro other same
    rw [reader] at same
    cases same
    exact within
  cases phase with
  | inputBlocked status events | outputBlocked status events | callbacks l status events
  | again status events => exact stands one.readerOf behind
  | input => exact stands (one.setInput _).readerOf behind
  | output => exact stands (one.setOutput _).readerOf behind
  | work report l listed leaves =>
      have one' := one.report report
      obtain ⟨_, read, written⟩ := (reports rfl report listed).of_leaves one leaves
      have unread : report.consumed 0 ≤ g.itemsAvailable r := by
        rcases backed rfl r v one.readerOf one.output with limit | offered
        · exact Nat.le_trans read ((input (Or.inr rfl)).backed limit)
        · exact Nat.le_trans written offered
      refine stands one'.readerOf ?_
      rw [unreleased_of_one one']
      simp only [unreleased] at behind
      unfold Group.itemsAvailable at unread
      dsimp only at unread ⊢
      omega
  | release l l' =>
      refine stands one.postReads.readerOf ?_
      rw [unreleased_of_one one] at behind
      exact behind
  | publish l l' =>
      refine stands (one.setBuffers _).readerOf ?_
      dsimp only
      rw [Function.update_of_ne one.apart]
      exact behind

/-- Neighbours consume nothing, and leave the writer ahead. -/
theorem frontier_neighbours {σ : Interleaving} {g' : Group} (moved : Neighbours σ.group g')
    (turn : Turn) :
    (mk g' σ.point).frontier = σ.frontier ∧ consumedBy ⟨σ, turn, { σ with group := g' }⟩ = [] ∧
      (σ.StaysBehind → (mk g' σ.point).StaysBehind) := by
  have reader : g'.reader 0 0 = σ.group.reader 0 0 := by
    simp only [Group.reader, Group.input, moved.blocks]
  have unreleased : (mk g' σ.point).unreleased = σ.unreleased := by
    simp only [Interleaving.unreleased, Group.input, moved.blocks]
  refine ⟨?_, ?_, fun behind r attached => ?_⟩
  · simp only [frontier, totalRead, reader, unreleased]
  · unfold consumedBy
    dsimp only
    cases σ.point <;> rfl
  · rw [unreleased]
    exact Nat.le_trans (behind r (reader.symm.trans attached)) (moved.grown r.source)

/-- The condition on the counts on offer, for the turns that resume the iteration. -/
def WorksBacked (t : Transition.Taken Interleaving Turn) : Prop :=
  ∀ answers, t.label = .resume answers → t.source.Backed

/-- A group of one block after a turn. -/
theorem counted_step {σ₀ σ σ' : Interleaving} {turn : Turn} (counted : Counted σ₀ σ b w r v k)
    (step : Step σ turn σ') (reports : ReportsOneCount ⟨σ, turn, σ'⟩) :
    (∃ b' w' r' v', Counted σ₀ σ' b' w' r' v' k) ∧
      (WorksBacked ⟨σ, turn, σ'⟩ → σ.StaysBehind → σ'.StaysBehind) ∧
      σ.frontier ≤ σ'.frontier ∧
      consumedBy ⟨σ, turn, σ'⟩ = List.range' σ.frontier (σ'.frontier - σ.frontier) := by
  cases step.moved with
  | resume answers resumes =>
      have phase := phase_of_resume counted.one resumes
      have count := reports answers rfl
      exact ⟨counted.phase phase count, fun backed stays =>
        stays.phase counted phase count (backed answers rfl), frontier_phase counted.one phase _⟩
  | neighbours _ moved =>
      obtain ⟨same, none, stays⟩ := frontier_neighbours moved turn
      refine ⟨⟨b, w, r, v, counted.neighbours moved⟩, fun _ => stays, ?_, ?_⟩
      · exact Nat.le_of_eq same.symm
      · rw [none, same, Nat.sub_self, List.range'_zero]

/-- What a run consumes is what lies between its frontiers. -/
theorem consumed_of_run {σ₀ σ σ' : Interleaving} {taken : List (Transition.Taken Interleaving Turn)}
    (run : Transition.Run Step σ taken σ') (counts : ∀ t ∈ taken, ReportsOneCount t)
    (counted : Counted σ₀ σ b w r v k) :
    σ.frontier ≤ σ'.frontier ∧
      taken.flatMap consumedBy = List.range' σ.frontier (σ'.frontier - σ.frontier) := by
  induction run generalizing b w r v with
  | nil σ => simp
  | @cons σ middle σ' turn rest step _ ih =>
      obtain ⟨⟨b', w', r', v', after⟩, _, ahead, first⟩ :=
        counted_step counted step (counts _ List.mem_cons_self)
      obtain ⟨onward, later⟩ := ih (fun t member => counts t (List.mem_cons_of_mem _ member)) after
      refine ⟨Nat.le_trans ahead onward, ?_⟩
      have whole : σ'.frontier - σ.frontier =
          (middle.frontier - σ.frontier) + (σ'.frontier - middle.frontier) := by omega
      rw [List.flatMap_cons, first, later, whole, ← List.range'_append_1,
        Nat.add_sub_cancel' ahead]

/-- The two further phases in which a block consumes and releases what its output
has room for. -/
theorem exists_reads_past (one : g.OneBlock b w r v k) (async : b.isAsyncBlock = true)
    (offered : v.nItems ≤ w.nItems) (unbacked : g.itemsAvailable r < v.nItems) :
    ∃ more σ', Transition.Run Step ⟨g, .outputsChecked⟩ more σ' ∧
      (∀ t ∈ more, ReportsOneCount t) ∧ ¬ σ'.ReadsBehind := by
  let all : WorkReport :=
    { ret := .ok, consumed := fun _ => v.nItems, produced := fun _ => v.nItems }
  let answers : Answers := { reports := fun _ => [all] }
  have works : ∃ ended, resume answers g .outputsChecked = .ok ended := by
    simp [resume, workLoop, place, firstInput, lastOutput, blockLoop, one.blocks, one.part,
      one.inputs, one.outputs, async, answers, all, bind, Except.bind, pure, Except.pure,
      Except.mapError, Except.map]
  obtain ⟨⟨g', point⟩, works⟩ := works
  cases phase_of_resume one works with
  | work report l listed leaves =>
      cases List.mem_singleton.mp listed
      have one' := one.report all
      have releases : ∃ ended, resume answers { g with blocks := [b.report all] } (.worked l) =
          .ok ended := by
        simp [resume, release, firstInput, one'.inputs, bind, Except.bind, pure, Except.pure,
          Except.mapError]
      obtain ⟨⟨g'', point'⟩, releases⟩ := releases
      cases phase_of_resume one' releases with
      | release _ l' =>
          have first : Step ⟨g, .outputsChecked⟩ (.resume answers)
              ⟨{ g with blocks := [b.report all] }, .worked l⟩ := by
            simp only [Step, next, works]
          have second : Step ⟨{ g with blocks := [b.report all] }, .worked l⟩ (.resume answers)
              ⟨{ g with blocks := [postReads (b.report all)] }, .released l'⟩ := by
            simp only [Step, next, releases]
          refine ⟨_, _, .cons first (.single second), fun t member => ?_, fun behind => ?_⟩
          · rcases List.mem_cons.mp member with rfl | member
            · intro _ same _ report listed
              cases same
              cases List.mem_singleton.mp listed
              refine ⟨fun _ => ⟨rfl, fun w' read => ?_, fun v' written => ?_⟩, by simp [all]⟩
              · cases one.input.symm.trans read
                exact offered
              · cases one.output.symm.trans written
                exact Nat.le_refl _
            · cases List.mem_singleton.mp member
              intro _ _ absurd
              cases absurd
          · have passed := behind _ one'.postReads.readerOf
            unfold Group.itemsAvailable at unbacked
            dsimp only [all] at passed
            omega

/-- A group at rest counts its items from where it stands. -/
theorem Resting.counted {σ : Interleaving} (rests : σ.Resting) :
    (∃ b w r v k, Counted σ σ b w r v k) ∧ σ.StaysBehind ∧ σ.frontier = σ.totalRead := by
  obtain ⟨⟨b, w, r, v, k, one⟩, start, holds, behind⟩ := rests
  have unreleased : σ.unreleased = 0 := by rw [Interleaving.unreleased, start]
  have unpublished : σ.unpublished = 0 := by rw [Interleaving.unpublished, start]
  refine ⟨⟨b, w, r, v, k, one, holds k one.bufferOf, ?_, ?_, ?_, ?_, ?_⟩, ?_, ?_⟩
  · simp [start]
  · simp [start]
  · simp [start]
  · simp [start]
  · rw [frontier, unreleased, unpublished, Nat.add_zero, Nat.add_zero]
  · intro r attached
    rw [unreleased]
    exact behind r attached
  · rw [frontier, unreleased, Nat.add_zero]

/-- **A block between its neighbours.** Where the counts on offer are backed by
unread items whenever the work starts, a run keeps the reader behind the writer
and the output within its capacity, and publishes what it consumes, every item
once. Where they are not, the block alone can take its reader past the writer. -/
theorem one_block_accounted (σ₀ : Interleaving) (rests : σ₀.Resting)
    (taken : List (Transition.Taken Interleaving Turn)) (σ : Interleaving)
    (run : Transition.Run Step σ₀ taken σ) (counts : ∀ t ∈ taken, ReportsOneCount t) :
    ((∀ t ∈ taken, WorksBacked t) → Accounted σ₀ taken σ) ∧
      (¬ σ.Backed → (∀ b ∈ σ.group.blocks, b.isAsyncBlock = true) →
        ∃ more σ', Transition.Run Step σ more σ' ∧ (∀ t ∈ more, ReportsOneCount t) ∧
          ¬ σ'.ReadsBehind) := by
  obtain ⟨⟨b, w, r, v, k, counted⟩, stays, atStart⟩ := rests.counted
  have after := (run.invariant (fun τ => ∃ b w r v, Counted σ₀ τ b w r v k)
    ⟨b, w, r, v, counted⟩ fun t member step ⟨_, _, _, _, before⟩ =>
      (counted_step before step (counts t member)).1).1
  obtain ⟨b', w', r', v', after⟩ := after
  constructor
  · intro backed
    have behind := (run.invariant
      (fun τ => (∃ b w r v, Counted σ₀ τ b w r v k) ∧ τ.StaysBehind)
      ⟨⟨b, w, r, v, counted⟩, stays⟩ fun t member step ⟨⟨_, _, _, _, before⟩, stays⟩ =>
        ⟨(counted_step before step (counts t member)).1,
          (counted_step before step (counts t member)).2.1 (backed t member) stays⟩).1.2
    obtain ⟨_, once⟩ := consumed_of_run run counts counted
    refine ⟨fun r attached => ?_, fun k attached => ?_, after.published, ?_⟩
    · exact Nat.le_trans (Nat.le_add_right _ _) (behind r attached)
    · cases after.one.bufferOf.symm.trans attached
      exact after.holds
    · rw [once, atStart]
  · intro unbacked async
    simp only [Backed, Classical.not_forall, exists_prop, not_or] at unbacked
    obtain ⟨stands, r, v, reader, output, limit, short⟩ := unbacked
    cases after.one.readerOf.symm.trans reader
    cases after.one.output.symm.trans output
    obtain ⟨g, point⟩ := σ
    cases stands
    refine exists_reads_past after.one ?_ ?_ (Nat.lt_of_not_le short)
    · exact async b' (by rw [after.one.blocks]; exact List.mem_singleton_self b')
    · exact Nat.le_trans (after.output rfl).2
        ((after.input (Or.inr rfl)).unbacked (Int.lt_of_not_ge limit))

/-- A block that reads buffer 0, with some items and a limit, and writes buffer 1. -/
def oneBlock (items maxRead : Nat) : Interleaving where
  group :=
    { blocks := [{ kind := .triton true, inputs := [{ bufp := some ⟨0, 0, maxRead, 0⟩ }]
                   outputs := [{ bufp := some 1 }] }]
      buffers := fun k => { bufSize := if k = 0 then 20 else 12
                            totalWritten := if k = 0 then items else 0
                            outsideReads := if k = 0 then [] else [0] } }

private theorem oneBlock_rests {items maxRead : Nat} : (oneBlock items maxRead).Resting where
  one := ⟨_, _, _, _, 1, rfl, rfl, rfl, rfl, rfl, rfl, Nat.zero_ne_one⟩
  start := rfl
  holds := fun k attached => by cases attached; exact Nat.zero_le _
  behind := fun r attached => by cases attached; exact Nat.zero_le _

/-- Only a turn that starts the work is asked for its counts. -/
theorem reportsOneCount_of_idle {t : Transition.Taken Interleaving Turn}
    (other : t.source.point ≠ .outputsChecked) : ReportsOneCount t :=
  fun _ _ stands => (other stands).elim

private theorem worksBacked_of_idle {t : Transition.Taken Interleaving Turn}
    (other : t.source.point ≠ .outputsChecked) : WorksBacked t :=
  fun _ _ stands => (other stands).elim

/-- Moving as many items at every port is a report of one count. -/
theorem oneCount_moving {n : Nat} {report : WorkReport} (one : g.OneBlock b w r v k)
    (read : n ≤ w.nItems) (written : n ≤ v.nItems) (listed : report ∈ (moving n).reports 0) :
    OneCount g report := by
  cases List.mem_singleton.mp listed
  refine ⟨fun _ => ⟨rfl, fun w' same => ?_, fun v' same => ?_⟩, by simp⟩
  · cases one.input.symm.trans same
    exact read
  · cases one.output.symm.trans same
    exact written

/-- Four items arrive after the input check, and one is released before the
callbacks. -/
theorem interrupted_iteration : ∃ taken σ, Transition.Run Step (oneBlock 6 0) taken σ ∧
    taken.length = 7 ∧ σ.totalRead = 5 ∧ Accounted (oneBlock 6 0) taken σ := by
  have turns : ∃ taken σ, Transition.Run Step (oneBlock 6 0) taken σ ∧ taken.length = 7 ∧
      σ.totalRead = 5 ∧ ∀ t ∈ taken, ReportsOneCount t ∧ WorksBacked t := by
    refine ⟨_, _, .cons (show Step _ (.resume (moving 5)) _ from rfl) <|
      .cons (show Step _ (.publish 0 4) _ from rfl) <|
      .cons (show Step _ (.resume (moving 5)) _ from rfl) <|
      .cons (show Step _ (.resume (moving 5)) _ from rfl) <|
      .cons (show Step _ (.resume (moving 5)) _ from rfl) <|
      .cons (show Step _ (.resume (moving 5)) _ from rfl) <|
      .single (show Step _ (.release 1 0 1) _ from rfl), rfl, rfl, ?_⟩
    have idle {t : Transition.Taken Interleaving Turn} (other : t.source.point ≠ .outputsChecked) :=
      And.intro (reportsOneCount_of_idle other) (worksBacked_of_idle other)
    simp only [List.forall_mem_cons]
    refine ⟨idle Point.noConfusion, idle Point.noConfusion, idle Point.noConfusion, ⟨?_, ?_⟩,
      idle Point.noConfusion, idle Point.noConfusion, idle Point.noConfusion,
      fun _ absurd => (List.not_mem_nil absurd).elim⟩
    · intro answers same _ report listed
      cases same
      exact oneCount_moving ⟨rfl, rfl, rfl, rfl, rfl, rfl, Nat.zero_ne_one⟩ (by decide) (by decide)
        listed
    · intro _ _ _ r v reader _
      cases reader
      exact Or.inl (by decide)
  obtain ⟨taken, σ, run, length, read, turns⟩ := turns
  exact ⟨taken, σ, run, length, read, (one_block_accounted _ oneBlock_rests _ _ run
    fun t member => (turns t member).1).1 fun t member => (turns t member).2⟩

/-- A limit of 2³¹ items is negative as an `int`: the block is offered more than
the eight items that are there, and takes its reader past the writer. -/
theorem reader_passes_writer : ∃ taken σ,
    Transition.Run Step (oneBlock 8 (2 ^ 31)) taken σ ∧ (oneBlock 8 (2 ^ 31)).Resting ∧
      (∀ t ∈ taken, ReportsOneCount t) ∧ ¬ σ.ReadsBehind := by
  refine ⟨_, _, .cons (show Step _ (.resume (moving 12)) _ from rfl) <|
      .cons (show Step _ (.resume (moving 12)) _ from rfl) <|
      .cons (show Step _ (.resume (moving 12)) _ from rfl) <|
      .single (show Step _ (.resume (moving 12)) _ from rfl), oneBlock_rests, ?_, fun behind => ?_⟩
  · simp only [List.forall_mem_cons]
    refine ⟨reportsOneCount_of_idle Point.noConfusion, reportsOneCount_of_idle Point.noConfusion,
      ?_, reportsOneCount_of_idle Point.noConfusion, fun _ absurd => (List.not_mem_nil absurd).elim⟩
    intro answers same _ report listed
    cases same
    exact oneCount_moving ⟨rfl, rfl, rfl, rfl, rfl, rfl, Nat.zero_ne_one⟩ (by decide) (by decide)
      listed
  · exact absurd (behind _ rfl) (by decide)

end Interleaving

end TorchDsp
