import TorchDsp.Foundation.Ledger
import TorchDsp.Foundation.Run
import TorchDsp.Executor.Course

/-! # Item accounting of an iteration

The totals of a group form a ledger: every input port is a reader of the buffer
it is attached to. An iteration that is blocked at a check leaves the ledger as
it is. One that runs its blocks posts what every block's final report says was
consumed and, on every buffer its blocks write, what the last block produced
(`TorchDsp.GraphExecutor.ledger_of_passes`).
-/

namespace TorchDsp

namespace Group

/-- The totals of a group. Ports are addressed by the position of their block
and their index. -/
def ledger (g : Group) : Ledger (Nat × Nat) Nat where
  released := fun port => (g.reader port.1 port.2).elim 0 BufferReader.totalRead
  published := fun k => (g.buffers k).totalWritten

/-- The buffer that an input port is attached to. -/
def sourceOf (g : Group) (port : Nat × Nat) : Nat :=
  (g.reader port.1 port.2).elim 0 BufferReader.source

variable {g g' : Group}

private theorem SameTotals.ledger_eq (same : SameTotals g g') : g'.ledger = g.ledger := by
  apply Ledger.ext
  · funext port
    unfold ledger
    simp only [same.reader_eq]
  · funext k
    unfold ledger
    simp only [same.buffers]

/-- What a reader has not read is what it has available. -/
theorem ledger_unread {p i : Nat} {r : BufferReader} (attached : g.reader p i = some r) :
    g.ledger.unread g.sourceOf (p, i) = g.itemsAvailable r := by
  unfold Ledger.unread ledger sourceOf itemsAvailable
  simp only [attached, Option.elim_some]

/-- An attached port reads the source of its reader. -/
theorem sourceOf_eq {p i : Nat} {r : BufferReader} (attached : g.reader p i = some r) :
    g.sourceOf (p, i) = r.source := by
  simp only [sourceOf, attached, Option.elim_some]

/-- A port is within its channel when its reader has not passed the writer. -/
theorem within_iff {p i : Nat} {r : BufferReader} (attached : g.reader p i = some r) :
    g.ledger.Within g.sourceOf (p, i) ↔ r.totalRead ≤ (g.buffers r.source).totalWritten := by
  simp only [Ledger.Within, ledger, sourceOf, attached, Option.elim_some]

/-- A port without a reader has released nothing. -/
theorem within_of_no_reader {p i : Nat} (detached : g.reader p i = none) :
    g.ledger.Within g.sourceOf (p, i) := by
  simp only [Ledger.Within, ledger, detached, Option.elim_none, Nat.zero_le]

/-- In a group whose readers have not moved, nothing is released. -/
theorem released_of_unmoved (unmoved : ∀ b ∈ g.blocks, ∀ w ∈ b.inputs, ∀ r, w.bufp = some r →
    r.totalRead = 0) (port : Nat × Nat) : g.ledger.released port = 0 := by
  change (g.reader port.1 port.2).elim 0 BufferReader.totalRead = 0
  cases attached : g.reader port.1 port.2 with
  | none => rfl
  | some r =>
      obtain ⟨w, listed, buffered⟩ := Option.bind_eq_some_iff.mp attached
      obtain ⟨b, present, here⟩ := Option.bind_eq_some_iff.mp listed
      exact unmoved b (List.mem_of_getElem? present) w (List.mem_of_getElem? here) r buffered

end Group

namespace Answers

variable (answers : Answers) (g : Group)

/-- An input port as the do_work loop leaves it. -/
def servedInput (p i : Nat) : Option BlockWorkInput :=
  g.blocks[p]?.bind fun b => (answers.serve g.blocks.length p b).inputs[i]?

/-- What an iteration that runs the blocks of `g` releases at each port. -/
def consumed (port : Nat × Nat) : Nat :=
  (answers.servedInput g port.1 port.2).elim 0 fun w => if w.bufp.isSome then w.nConsumed else 0

/-- The count that an iteration publishes on every output. -/
def lastProduced : Nat :=
  (g.blocks.getLast?.bind fun b =>
    (answers.serve g.blocks.length (g.blocks.length - 1) b).outputs.head?).elim 0
      BlockWorkOutput.nProduced

/-- What an iteration that runs the blocks of `g` publishes into each buffer. -/
def published (k : Nat) : Nat :=
  answers.lastProduced g * (GraphExecutor.outputBuffers g.blocks).count k

private theorem bare_serve {b b' : Block} (same : b'.bare = b.bare) (count position : Nat) :
    (answers.serve count position b').bare = (answers.serve count position b).bare := by
  have hier : b'.isHier = b.isHier := by rw [← Block.bare_isHier b', same, Block.bare_isHier]
  unfold serve
  rw [hier]
  split
  · exact same
  · cases answers.final count position with
    | none => exact same
    | some r =>
        change (b'.report r).bare = (b.report r).bare
        rw [Block.bare_report, same, ← Block.bare_report]

/-- The counts on offer do not matter for what is consumed and produced. -/
theorem consumed_eq_of_sameTotals {g g' : Group} (same : g.SameTotals g') :
    answers.consumed g' = answers.consumed g := by
  have forget (g : Group) (port : Nat × Nat) : answers.consumed g port =
      (g.blocks[port.1]?.bind fun b =>
        (answers.serve g.blocks.length port.1 b).bare.inputs[port.2]?).elim 0 fun w =>
          if w.bufp.isSome then w.nConsumed else 0 := by
    unfold consumed servedInput
    cases g.blocks[port.1]? with
    | none => rfl
    | some b =>
        simp only [Option.bind_some, Block.bare_inputs_getElem?]
        cases (answers.serve g.blocks.length port.1 b).inputs[port.2]? <;> rfl
  funext port
  rw [forget, forget, same.length_eq]
  congr 1
  cases present : g.blocks[port.1]? with
  | none =>
      have absent := same.bare_eq port.1
      rw [present, Option.map_none, Option.map_eq_none_iff] at absent
      rw [absent]
  | some b =>
      obtain ⟨b', present', bare⟩ := same.block present
      rw [present', Option.bind_some, Option.bind_some, answers.bare_serve bare]

private theorem lastProduced_eq_of_sameTotals {g g' : Group} (same : g.SameTotals g') :
    answers.lastProduced g' = answers.lastProduced g := by
  have forget (g : Group) : answers.lastProduced g =
      (g.blocks.getLast?.bind fun b => (answers.serve g.blocks.length
        (g.blocks.length - 1) b).bare.outputs.head?).elim 0 BlockWorkOutput.nProduced := by
    unfold lastProduced
    cases g.blocks.getLast? with
    | none => rfl
    | some b =>
        simp only [Option.bind_some]
        unfold Block.bare
        cases shape : (answers.serve g.blocks.length (g.blocks.length - 1) b).outputs <;>
          simp only [List.map_nil, List.map_cons, List.head?_nil, List.head?_cons,
            Option.elim_none, Option.elim_some]
  rw [forget, forget, List.getLast?_eq_getElem?, List.getLast?_eq_getElem?, same.length_eq]
  congr 1
  cases present : g.blocks[g.blocks.length - 1]? with
  | none =>
      have absent := same.bare_eq (g.blocks.length - 1)
      rw [present, Option.map_none, Option.map_eq_none_iff] at absent
      rw [absent]
  | some b =>
      obtain ⟨b', present', bare⟩ := same.block present
      rw [present', Option.bind_some, Option.bind_some, answers.bare_serve bare]

private theorem servedInput_bufp (p i : Nat) :
    (answers.servedInput g p i).bind BlockWorkInput.bufp = g.reader p i := by
  unfold servedInput Group.reader Group.input
  cases g.blocks[p]? with
  | none => rfl
  | some b =>
      simp only [Option.bind_some]
      rcases answers.serve_cases g.blocks.length p b with same | ⟨r, _, same⟩
      · rw [same]
      · rw [same, Block.inputs_report_getElem?, Option.bind_map]
        rfl

/-- A block that takes part consumes what its final report says. -/
theorem consumed_of_final {p i : Nat} {b : Block} {w : BlockWorkInput} {r : WorkReport}
    (present : g.blocks[p]? = some b) (port : b.inputs[i]? = some w)
    (buffered : w.bufp.isSome = true) (served : b.isHier = false)
    (last : answers.final g.blocks.length p = some r) :
    answers.consumed g (p, i) = r.consumed i := by
  unfold consumed servedInput
  rw [present, Option.bind_some, answers.serve_of_final _ _ b served last,
    Block.inputs_report_getElem?, port, Option.map_some, Option.elim_some]
  exact if_pos buffered

/-- A hierarchical block releases what its port was left with. -/
theorem consumed_of_hier {p i : Nat} {b : Block} {w : BlockWorkInput}
    (present : g.blocks[p]? = some b) (port : b.inputs[i]? = some w)
    (buffered : w.bufp.isSome = true) (passed : b.isHier = true) :
    answers.consumed g (p, i) = w.nConsumed := by
  unfold consumed servedInput
  rw [present, Option.bind_some, answers.serve_of_hier _ _ b passed, port, Option.elim_some]
  exact if_pos buffered

/-- What is published is what the last block's final report says of its first
output. -/
theorem lastProduced_of_final {last : Block} {r : WorkReport}
    (atEnd : g.blocks.getLast? = some last) (outputs : last.outputs ≠ [])
    (served : last.isHier = false)
    (final : answers.final g.blocks.length (g.blocks.length - 1) = some r) :
    answers.lastProduced g = r.produced 0 := by
  unfold lastProduced
  rw [atEnd, Option.bind_some, answers.serve_of_final _ _ last served final,
    List.head?_eq_getElem?, Block.outputs_report_getElem?, ← List.head?_eq_getElem?]
  obtain ⟨w, others, shape⟩ := List.exists_cons_of_ne_nil outputs
  rw [shape, List.head?_cons, Option.map_some, Option.elim_some]

/-- A port without reader consumes nothing. -/
theorem consumed_of_no_reader {p i : Nat} (detached : g.reader p i = none) :
    answers.consumed g (p, i) = 0 := by
  rw [← answers.servedInput_bufp] at detached
  unfold consumed
  cases served : answers.servedInput g p i with
  | none => rfl
  | some w =>
      rw [served, Option.bind_some] at detached
      rw [Option.elim_some, detached]
      rfl

end Answers

namespace GraphExecutor

/-- The wiring of a group: which reader with which limits every port has. -/
def SameWiring (g g' : Group) : Prop :=
  ∀ p i, (g'.reader p i).map (fun r => { r with totalRead := 0 }) =
    (g.reader p i).map fun r => { r with totalRead := 0 }

/-- The reader of a port after the blocks have run and committed. -/
theorem reader_worked {answers : Answers} {g : Group} {blocks : List Block} {l : Loop}
    {buffers : Nat → Buffer} (runs : workLoop answers [] g.blocks {} = .ok (blocks, l))
    (p i : Nat) :
    Group.reader { blocks := blocks.map postReads, buffers } p i =
      (g.reader p i).map fun r =>
        { r with totalRead := r.totalRead + answers.consumed g (p, i) } := by
  have served := workLoop_blocks runs
  rw [answers.served_nil_left] at served
  subst served
  have after : Group.reader { blocks := (g.blocks.mapIdx fun i b =>
      answers.serve g.blocks.length i b).map postReads, buffers } p i =
      (answers.servedInput g p i).bind fun w => (postRead w).bufp := by
    unfold Group.reader Group.input Answers.servedInput
    rw [List.getElem?_map, List.getElem?_mapIdx]
    cases g.blocks[p]? with
    | none => rfl
    | some b =>
        simp only [Option.map_some, Option.bind_some, postReads, List.getElem?_map,
          Option.bind_map]
        rfl
  rw [after, ← answers.servedInput_bufp]
  unfold Answers.consumed
  cases answers.servedInput g p i with
  | none => rfl
  | some w =>
      simp only [Option.bind_some, Option.elim_some, postRead]
      cases w.bufp <;> rfl

/-- What the last block's first output reports after the do_work loop. -/
theorem lastProduced_worked {answers : Answers} {g : Group} {blocks : List Block} {l : Loop}
    {w : BlockWorkOutput} (runs : workLoop answers [] g.blocks {} = .ok (blocks, l))
    (atEnd : lastOutput blocks = .ok w) : answers.lastProduced g = w.nProduced := by
  have served := workLoop_blocks runs
  rw [answers.served_nil_left] at served
  subst served
  unfold lastOutput at atEnd
  unfold Answers.lastProduced
  rw [List.getLast?_mapIdx, Option.bind_map, Function.comp_def] at atEnd
  split at atEnd
  · cases atEnd
  · rename_i found
    cases atEnd
    rw [found, Option.elim_some]

private theorem shape_worked {answers : Answers} {g : Group} {blocks : List Block} {l : Loop}
    (runs : workLoop answers [] g.blocks {} = .ok (blocks, l)) :
    blocks.map Block.shape = g.blocks.map Block.shape := by
  rw [workLoop_blocks runs, answers.served_nil_left]
  apply List.ext_getElem?
  intro p
  rw [List.getElem?_map, List.getElem?_map, List.getElem?_mapIdx, Option.map_map]
  congr 1
  funext b
  exact Prod.ext (answers.isHier_serve _ p b) (answers.writes_serve _ p b)

/-- Whether both checks pass, so that the iteration reaches its do_work loop. -/
def passes (answers : Answers) (g : Group) : Bool :=
  match negotiate answers g with
  | .ok (_, .ready) => true
  | _ => false

/-- The checks pass when they end in a group that is ready. -/
theorem passes_eq_true {answers : Answers} {g : Group} :
    passes answers g = true ↔ ∃ g', negotiate answers g = .ok (g', .ready) := by
  unfold passes
  constructor
  · intro reaches
    split at reaches
    · rename_i checks
      exact ⟨_, checks⟩
    · exact (Bool.false_ne_true reaches).elim
  · rintro ⟨g', checks⟩
    rw [checks]

/-- An iteration that is blocked at a check leaves the ledger as it is. -/
theorem ledger_of_blocked {answers : Answers} {g : Group} {iteration : Iteration}
    (returns : runOneIteration answers g = .ok iteration) (blocked : passes answers g = false) :
    iteration.group.ledger = g.ledger := by
  cases course returns with
  | inputsBlocked checks => exact (negotiate_cases checks).1.ledger_eq
  | outputsBlocked events checks => exact (negotiate_cases checks).1.ledger_eq
  | worked g' events checks runs atStart atEnd kept =>
      rw [passes_eq_true.mpr ⟨g', checks⟩] at blocked
      cases blocked

/-- **An iteration as a posting.** An iteration that runs its blocks advances
every total by what their final reports say. -/
theorem ledger_of_passes {answers : Answers} {g : Group} {iteration : Iteration}
    (returns : runOneIteration answers g = .ok iteration) (reaches : passes answers g = true) :
    iteration.group.ledger = g.ledger.post (answers.consumed g) (answers.published g) := by
  obtain ⟨ready, checks⟩ := passes_eq_true.mp reaches
  cases course returns with
  | inputsBlocked blocked => rw [checks] at blocked; cases blocked
  | outputsBlocked events blocked => rw [checks] at blocked; cases blocked
  | worked g' events checks runs atStart atEnd kept =>
      have same := (negotiate_cases checks).1
      apply Ledger.ext
      · funext port
        rw [Ledger.released_post]
        unfold Group.ledger
        simp only [reader_worked runs, same.reader_eq, answers.consumed_eq_of_sameTotals same]
        cases attached : g.reader port.1 port.2 with
        | none =>
            rw [Option.map_none, Option.elim_none, answers.consumed_of_no_reader g attached]
        | some r => rfl
      · funext k
        rw [Ledger.published_post]
        unfold Group.ledger Answers.published
        simp only [totalWritten_postWrites, outputBuffers_of_shape (shape_worked runs),
          outputBuffers_of_shape same.shape_eq,
          same.buffers, ← lastProduced_worked runs atEnd,
          answers.lastProduced_eq_of_sameTotals same]

/-- An iteration keeps the wiring of its group. -/
theorem wiring_iteration {answers : Answers} {g : Group} {iteration : Iteration}
    (returns : runOneIteration answers g = .ok iteration) : SameWiring g iteration.group := by
  intro p i
  cases course returns with
  | inputsBlocked checks => rw [(negotiate_cases checks).1.reader_eq]
  | outputsBlocked events checks => rw [(negotiate_cases checks).1.reader_eq]
  | worked g' events checks runs atStart atEnd kept =>
      rw [reader_worked runs, (negotiate_cases checks).1.reader_eq, Option.map_map]
      rfl

/-- An iteration keeps the shape of every block. -/
theorem shape_iteration {answers : Answers} {g : Group} {iteration : Iteration}
    (returns : runOneIteration answers g = .ok iteration) :
    iteration.group.blocks.map Block.shape = g.blocks.map Block.shape := by
  cases course returns with
  | inputsBlocked checks => exact (negotiate_cases checks).1.shape_eq
  | outputsBlocked events checks => exact (negotiate_cases checks).1.shape_eq
  | worked g' events checks runs atStart atEnd kept =>
      rw [← (negotiate_cases checks).1.shape_eq, ← shape_worked runs, List.map_map]
      rfl

/-- The last block of an iteration that runs its blocks has an output. -/
theorem last_of_passes {answers : Answers} {g : Group} {iteration : Iteration}
    (returns : runOneIteration answers g = .ok iteration) (reaches : passes answers g = true) :
    ∃ last, g.blocks.getLast? = some last ∧ last.outputs ≠ [] := by
  obtain ⟨ready, checks⟩ := passes_eq_true.mp reaches
  cases course returns with
  | inputsBlocked blocked => rw [checks] at blocked; cases blocked
  | outputsBlocked events blocked => rw [checks] at blocked; cases blocked
  | @worked g' blocks l w0 w events checks runs atStart atEnd kept =>
      rw [lastOutput_eq_ok, workLoop_blocks runs, answers.served_nil_left, List.getLast?_mapIdx]
        at atEnd
      obtain ⟨b, found, port⟩ := Option.bind_eq_some_iff.mp atEnd
      obtain ⟨b', found', rfl⟩ := Option.map_eq_some_iff.mp found
      rw [List.getLast?_eq_getElem?] at found'
      have same := (negotiate_cases checks).1
      obtain ⟨last, present, bare⟩ := same.symm.block found'
      refine ⟨last, ?_, fun none => ?_⟩
      · rw [List.getLast?_eq_getElem?, ← same.length_eq, present]
      · have count : (answers.serve g'.blocks.length (g'.blocks.length - 1) b').outputs.length =
            last.outputs.length := by
          rw [answers.length_outputs_serve, ← b'.bare_length_outputs, ← bare,
            last.bare_length_outputs]
        rw [none, List.length_nil, List.length_eq_zero_iff] at count
        rw [count] at port
        cases port

end GraphExecutor

end TorchDsp
