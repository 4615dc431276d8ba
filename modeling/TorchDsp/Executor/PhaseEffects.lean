import TorchDsp.Executor.Phases

/-! # What a phase changes

A phase leaves every port the buffer it has. The readers move in the phase that
releases, the writers in the phase that publishes, each for all blocks at once,
and in the same phase the ports at that end of the group are notified
(`TorchDsp.GraphExecutor.effect_of_resume`).
-/

namespace TorchDsp

/-- The readers and the buffers at the ports of a block. -/
def Block.attached (b : Block) : List (Option BufferReader) × List (Option Nat) :=
  (b.inputs.map BlockWorkInput.bufp, b.outputs.map BlockWorkOutput.bufp)

/-- The buffers at the ports of a block. -/
def Block.wires (b : Block) : List (Option Nat) × List (Option Nat) :=
  (b.inputs.map fun w => w.bufp.map BufferReader.source, b.outputs.map BlockWorkOutput.bufp)

/-- The totals of the readers of a buffer that the blocks own. -/
def Block.readsOf (blocks : List Block) (k : Nat) : List Nat :=
  (blocks.flatMap Block.inputs).filterMap fun w => w.bufp.bind fun r =>
    if r.source = k then some r.totalRead else none

namespace Block

/-- The counts on offer do not change what the ports are attached to. -/
@[simp] theorem attached_bare (b : Block) : b.bare.attached = b.attached := by
  unfold attached bare
  simp only [List.map_map]
  rfl

/-- A report does not change what the ports are attached to. -/
@[simp] theorem attached_report (b : Block) (r : WorkReport) :
    (b.report r).attached = b.attached := by
  refine Prod.ext ?_ ?_
  · apply List.ext_getElem?
    intro i
    rw [attached, List.getElem?_map, inputs_report_getElem?, Option.map_map, attached,
      List.getElem?_map]
    rfl
  · apply List.ext_getElem?
    intro i
    rw [attached, List.getElem?_map, outputs_report_getElem?, Option.map_map, attached,
      List.getElem?_map]
    rfl

/-- Running a block does not change what its ports are attached to. -/
@[simp] theorem attached_serve (answers : Answers) (count position : Nat) (b : Block) :
    (answers.serve count position b).attached = b.attached := by
  rcases answers.serve_cases count position b with same | ⟨r, _, same⟩
  · rw [same]
  · rw [same, attached_report]

private theorem wires_eq (b : Block) :
    b.wires = (b.attached.1.map (Option.map BufferReader.source), b.attached.2) := by
  unfold wires attached
  rw [List.map_map]
  rfl

/-- Ports without a change keep their wires. -/
theorem wires_of_attached {blocks others : List Block}
    (same : blocks.map attached = others.map attached) : blocks.map wires = others.map wires := by
  have each (blocks : List Block) : blocks.map wires = (blocks.map attached).map fun ends =>
      (ends.1.map (Option.map BufferReader.source), ends.2) := by
    rw [List.map_map]
    exact List.map_congr_left fun b _ => b.wires_eq
  rw [each, each, same]

/-- Consuming moves readers on, but not to other buffers. -/
@[simp] theorem wires_postReads (b : Block) : (GraphExecutor.postReads b).wires = b.wires := by
  unfold wires GraphExecutor.postReads
  rw [List.map_map]
  refine congrArg (·, _) (List.map_congr_left fun w _ => ?_)
  unfold GraphExecutor.postRead
  rw [Function.comp_apply, Option.map_map]
  rfl

/-- The buffers a block writes are among its wires. -/
theorem writes_eq (b : Block) : b.writes = b.wires.2.filterMap id := by
  unfold writes wires
  rw [List.filterMap_map]
  rfl

/-- The buffers that a chain writes are told by its wires. -/
theorem outputBuffers_of_wires {blocks others : List Block}
    (same : blocks.map wires = others.map wires) :
    GraphExecutor.outputBuffers blocks = GraphExecutor.outputBuffers others := by
  have each (blocks : List Block) : GraphExecutor.outputBuffers blocks =
      (blocks.map wires).flatMap fun ends => ends.2.filterMap id := by
    unfold GraphExecutor.outputBuffers
    rw [List.flatMap_map]
    exact List.flatMap_congr fun b _ => b.writes_eq
  rw [each, each, same]

/-- The readers of a buffer are told by what the ports are attached to. -/
theorem readsOf_eq (blocks : List Block) (k : Nat) :
    readsOf blocks k = ((blocks.map attached).flatMap Prod.fst).filterMap fun bufp =>
      bufp.bind fun r => if r.source = k then some r.totalRead else none := by
  unfold readsOf
  rw [List.flatMap_map]
  induction blocks with
  | nil => rfl
  | cons b rest ih =>
      rw [List.flatMap_cons, List.flatMap_cons, List.filterMap_append, List.filterMap_append, ih]
      refine congrArg (· ++ _) ?_
      unfold attached
      rw [List.filterMap_map]
      rfl

/-- Blocks attached alike read a buffer alike. -/
theorem readsOf_of_attached {blocks others : List Block}
    (same : blocks.map attached = others.map attached) (k : Nat) :
    readsOf blocks k = readsOf others k := by
  rw [readsOf_eq, readsOf_eq, same]

/-- A block that releases lets no reader move back. -/
theorem readsOf_postReads (blocks : List Block) (k : Nat) :
    List.Forall₂ (· ≤ ·) (readsOf blocks k) (readsOf (blocks.map GraphExecutor.postReads) k) := by
  have each (ws : List BlockWorkInput) :
      List.Forall₂ (· ≤ ·)
        (ws.filterMap fun w => w.bufp.bind fun r =>
          if r.source = k then some r.totalRead else none)
        ((ws.map GraphExecutor.postRead).filterMap fun w => w.bufp.bind fun r =>
          if r.source = k then some r.totalRead else none) := by
    induction ws with
    | nil => exact .nil
    | cons w rest ih =>
        rw [List.map_cons, List.filterMap_cons, List.filterMap_cons]
        cases attached : w.bufp with
        | none => simpa only [GraphExecutor.postRead, attached, Option.map_none, Option.bind_none]
        | some r =>
            by_cases same : r.source = k
            · simp only [GraphExecutor.postRead, attached, Option.map_some, Option.bind_some, same,
                ↓reduceIte]
              exact .cons (Nat.le_add_right _ _) ih
            · simpa only [GraphExecutor.postRead, attached, Option.map_some, Option.bind_some, same,
                ↓reduceIte]
  unfold readsOf
  have flat : (blocks.map GraphExecutor.postReads).flatMap Block.inputs =
      (blocks.flatMap Block.inputs).map GraphExecutor.postRead := by
    rw [List.flatMap_map, List.map_flatMap]
    rfl
  rw [flat]
  exact each _

end Block

namespace GraphExecutor

/-- What a phase does to the readers, the buffers and the calls of an iteration. -/
inductive Effect (g : Group) (point : Point) (g' : Group) (point' : Point) : Prop
  /-- A phase that moves nothing. -/
  | still (attached : g'.blocks.map Block.attached = g.blocks.map Block.attached)
      (buffers : g'.buffers = g.buffers)
      (inside : ∀ l, point' ≠ .released l ∧ point' ≠ .published l)
  | releases (l : Loop) (worked : point = .worked l)
      (blocks : g'.blocks = g.blocks.map postReads) (buffers : g'.buffers = g.buffers)
      (released : point' = .released { l with
        events := l.events ++
          notifyPorts 0 (g'.blocks.head?.elim 0 fun b => b.inputs.length) .notifyOutput })
  | publishes (l : Loop) (released : point = .released l) (blocks : g'.blocks = g.blocks)
      (w : BlockWorkOutput) (atEnd : lastOutput g.blocks = .ok w)
      (buffers : g'.buffers = postWrites w.nProduced (outputBuffers g.blocks) g.buffers)
      (published : point' = .published { l with
        events := l.events ++ notifyPorts (g.blocks.length - 1)
          (g.blocks.getLast?.elim 0 fun b => b.outputs.length) .notifyInput })

/-- The counts on offer do not change what the ports of a group are attached to. -/
theorem Group.SameTotals.attached {g g' : Group} (same : g.SameTotals g') :
    g'.blocks.map Block.attached = g.blocks.map Block.attached := by
  have both := congrArg (List.map Block.attached) same.blocks
  rw [List.map_map, List.map_map] at both
  have each : Block.attached ∘ Block.bare = Block.attached := funext Block.attached_bare
  rwa [each] at both

/-- **What a phase changes.** -/
theorem effect_of_resume {answers : Answers} {g g' : Group} {point point' : Point}
    (resumes : resume answers g point = .ok (g', point')) : Effect g point g' point' := by
  cases point with
  | start =>
      obtain ⟨⟨checked, ready⟩, checks, ends⟩ := Except.bind_eq_ok resumes
      have same := (checkFirst_eq_ok (Except.mapError_eq_ok checks)).1
      cases ends
      refine .still (Group.SameTotals.attached same) same.buffers fun l => ?_
      cases ready <;> exact ⟨Point.noConfusion, Point.noConfusion⟩
  | inputsChecked =>
      obtain ⟨⟨checked, ready⟩, checks, ends⟩ := Except.bind_eq_ok resumes
      have same := (checkLast_eq_ok (Except.mapError_eq_ok checks)).1
      cases ready with
      | true =>
          cases ends
          exact .still (Group.SameTotals.attached same) same.buffers fun l =>
            ⟨Point.noConfusion, Point.noConfusion⟩
      | false =>
          obtain ⟨events, _, ends⟩ := Except.bind_eq_ok ends
          cases ends
          exact .still (Group.SameTotals.attached same) same.buffers fun l =>
            ⟨Point.noConfusion, Point.noConfusion⟩
  | outputsChecked =>
      obtain ⟨⟨blocks, l⟩, runs, ends⟩ := Except.bind_eq_ok resumes
      cases ends
      refine .still ?_ rfl fun l => ⟨Point.noConfusion, Point.noConfusion⟩
      apply List.ext_getElem?
      intro p
      rw [workLoop_blocks runs, answers.served_nil_left, List.getElem?_map, List.getElem?_map,
        List.getElem?_mapIdx, Option.map_map]
      congr 1
      funext b
      exact Block.attached_serve answers _ p b
  | worked l =>
      obtain ⟨⟨posted, events⟩, releases, ends⟩ := Except.bind_eq_ok resumes
      cases ends
      obtain ⟨_, _, releases⟩ := Except.bind_eq_ok releases
      cases releases
      exact .releases l rfl rfl rfl rfl
  | released l =>
      obtain ⟨⟨posted, events⟩, publishes, ends⟩ := Except.bind_eq_ok resumes
      cases ends
      obtain ⟨w, last, publishes⟩ := Except.bind_eq_ok publishes
      cases publishes
      exact .publishes l rfl rfl w (Except.mapError_eq_ok last) rfl rfl
  | published l =>
      obtain ⟨events, _, ends⟩ := Except.bind_eq_ok resumes
      cases ends
      exact .still rfl rfl fun l => ⟨Point.noConfusion, Point.noConfusion⟩
  | returned status events =>
      cases resumes
      exact .still rfl rfl fun l => ⟨Point.noConfusion, Point.noConfusion⟩

/-- The first phase of an iteration. -/
theorem point_of_start {answers : Answers} {g g' : Group} {point : Point}
    (resumes : resume answers g .start = .ok (g', point)) :
    ∃ ready, checkFirst answers g = .ok (g', ready) ∧
      point = if ready then .inputsChecked else .returned .blkdIn [] := by
  obtain ⟨⟨checked, ready⟩, checks, ends⟩ := Except.bind_eq_ok resumes
  cases ends
  exact ⟨ready, Except.mapError_eq_ok checks, rfl⟩

/-- No phase rewires a block. -/
theorem Effect.wires {g g' : Group} {point point' : Point} (effect : Effect g point g' point') :
    g'.blocks.map Block.wires = g.blocks.map Block.wires := by
  cases effect with
  | still attached => exact Block.wires_of_attached attached
  | releases l _ blocks =>
      rw [blocks, List.map_map]
      exact List.map_congr_left fun b _ => b.wires_postReads
  | publishes l _ blocks => rw [blocks]

/-- A phase moves no reader back. -/
theorem Effect.readsOf {g g' : Group} {point point' : Point} (effect : Effect g point g' point')
    (k : Nat) : List.Forall₂ (· ≤ ·) (Block.readsOf g.blocks k) (Block.readsOf g'.blocks k) := by
  cases effect with
  | still attached =>
      rw [Block.readsOf_of_attached attached]
      exact List.forall₂_refl _
  | releases l _ blocks =>
      rw [blocks]
      exact Block.readsOf_postReads _ k
  | publishes l _ blocks =>
      rw [blocks]
      exact List.forall₂_refl _

/-- A phase takes nothing back that was published, and publishes only what the blocks
write. -/
theorem Effect.totalWritten {g g' : Group} {point point' : Point}
    (effect : Effect g point g' point') (k : Nat) :
    (g.buffers k).totalWritten ≤ (g'.buffers k).totalWritten ∧
      (k ∉ outputBuffers g.blocks → (g'.buffers k).totalWritten = (g.buffers k).totalWritten) := by
  cases effect with
  | still _ buffers => rw [buffers]; exact ⟨Nat.le_refl _, fun _ => rfl⟩
  | releases l _ _ buffers => rw [buffers]; exact ⟨Nat.le_refl _, fun _ => rfl⟩
  | publishes l _ _ w _ buffers =>
      rw [buffers, totalWritten_postWrites]
      refine ⟨Nat.le_add_right _ _, fun other => ?_⟩
      rw [List.count_eq_zero_of_not_mem other, Nat.mul_zero, Nat.add_zero]

end GraphExecutor

end TorchDsp
