import TorchDsp.Executor.Unclog
import TorchDsp.Executor.Waiting

/-! # Ports and buffers that are not there

An iteration reads the first input port of the first block and the first output
port of the last one by index, and runs the blocked callbacks without asking
whether a port has a buffer. All its accesses are in bounds exactly when these
ports and buffers are there on the path it takes, or the do_work loop is held up
before it needs them (`TorchDsp.GraphExecutor.in_bounds_iff`).
-/

namespace TorchDsp

/-- Whether an iteration with this cause has used a port or a buffer that is not
there. -/
def Cause.badAccess : Cause → Bool
  | .noInputPort | .noOutputPort | .noBuffer => true
  | _ => false

namespace GraphExecutor

/-- No access of the iteration to a port or to the buffer of a port goes wrong. -/
def InBounds (answers : Answers) (g : Group) : Prop :=
  ∀ abort, runOneIteration answers g = .error abort → abort.cause.badAccess = false

/-- Whether the first block has an input port. -/
def firstHasInput (blocks : List Block) : Bool :=
  blocks.head?.any fun b => !b.inputs.isEmpty

/-- Whether the last block has an output port. -/
def lastHasOutput (blocks : List Block) : Bool :=
  blocks.getLast?.any fun b => !b.outputs.isEmpty

/-- The ports whose counts a block is handed are there. -/
structure Placeable (blocks : List Block) (b : Block) : Prop where
  input : b.inputs ≠ [] → firstHasInput blocks = true
  output : b.outputs ≠ [] → lastHasOutput blocks = true

/-- The block at position `p` of `count` blocks keeps the do_work loop from going
on: none of its reports leaves its inner loop, or it is the last one and cannot be
called back, or is not. -/
def HoldsUp (answers : Answers) (count p : Nat) (b : Block) : Prop :=
  answers.final count p = none ∨
    p + 1 = count ∧ (b.isAsyncBlock = false ∨ ∃ r, answers.final count p = some r ∧ r.Silent)

/-- The do_work loop is held up by a block, and the ports it needs up to that block
are there. -/
def HeldUp (answers : Answers) (g : Group) : Prop :=
  ∃ p b, g.blocks[p]? = some b ∧ b.isHier = false ∧ HoldsUp answers g.blocks.length p b ∧
    ∀ q ≤ p, ∀ other, g.blocks[q]? = some other → other.isHier = false →
      Placeable g.blocks other

def InputsBuffered (g : Group) : Prop :=
  ∀ p i w, g.input p i = some w → w.bufp.isSome = true

def OutputsBuffered (g : Group) : Prop :=
  ∀ p i w, g.output p i = some w → w.bufp.isSome = true

/-- What an iteration needs of its ports. -/
structure PortsPresent (answers : Answers) (g : Group) : Prop where
  outputsBlocked : (∃ g', negotiate answers g = .ok (g', .outputsBlocked)) → OutputsBuffered g
  ready : passes answers g = true → HeldUp answers g ∨
    firstHasInput g.blocks = true ∧ lastHasOutput g.blocks = true ∧
      ((answers.lastReport g.blocks g.blocks.length).any (·.ret = .insufficientInputItems) →
        InputsBuffered g) ∧
      ((answers.lastReport g.blocks g.blocks.length).any (·.ret = .insufficientOutputItems) →
        OutputsBuffered g)

/-! ## Accesses by index -/

private theorem firstInput_ok_iff {blocks : List Block} :
    (∃ w, firstInput blocks = .ok w) ↔ firstHasInput blocks = true := by
  simp only [firstInput_eq_ok, firstHasInput]
  cases blocks.head? with
  | none => simp
  | some b => cases ports : b.inputs <;> simp [ports]

private theorem lastOutput_ok_iff {blocks : List Block} :
    (∃ w, lastOutput blocks = .ok w) ↔ lastHasOutput blocks = true := by
  simp only [lastOutput_eq_ok, lastHasOutput]
  cases blocks.getLast? with
  | none => simp
  | some b => cases ports : b.outputs <;> simp [ports]

private theorem firstInput_badAccess {blocks : List Block} {cause : Cause}
    (fails : firstInput blocks = .error cause) : cause.badAccess = true := by
  unfold firstInput at fails
  split at fails <;> cases fails
  rfl

private theorem lastOutput_badAccess {blocks : List Block} {cause : Cause}
    (fails : lastOutput blocks = .error cause) : cause.badAccess = true := by
  unfold lastOutput at fails
  split at fails <;> cases fails
  rfl

private theorem placeable_of_place {blocks : List Block} {b placed : Block}
    (places : place blocks b = .ok placed) : Placeable blocks b := by
  obtain ⟨_, _, _, input, output⟩ := place_eq_ok places
  refine ⟨fun ports => ?_, fun ports => ?_⟩
  · obtain ⟨w, found, _⟩ := input ports
    exact firstInput_ok_iff.mp ⟨w, found⟩
  · obtain ⟨w, found, _⟩ := output ports
    exact lastOutput_ok_iff.mp ⟨w, found⟩

/-- A placement fails only by reading a port that is not there. -/
theorem place_badAccess {blocks : List Block} {b : Block} {cause : Cause}
    (fails : place blocks b = .error cause) :
    cause.badAccess = true ∧ ¬ Placeable blocks b := by
  unfold place at fails
  rcases Except.bind_eq_error fails with fails | ⟨_, _, fails⟩
  · split at fails
    · cases fails
    · rename_i ports
      have missing := Except.map_eq_error fails
      refine ⟨firstInput_badAccess missing, fun placeable => ?_⟩
      obtain ⟨w, found⟩ := firstInput_ok_iff.mpr (placeable.input (mt List.isEmpty_iff.mpr ports))
      rw [found] at missing
      cases missing
  · rcases Except.bind_eq_error fails with fails | ⟨_, _, fails⟩
    · split at fails
      · cases fails
      · rename_i ports
        have missing := Except.map_eq_error fails
        refine ⟨lastOutput_badAccess missing, fun placeable => ?_⟩
        obtain ⟨w, found⟩ :=
          lastOutput_ok_iff.mpr (placeable.output (mt List.isEmpty_iff.mpr ports))
        rw [found] at missing
        cases missing
    · cases fails

/-- The commit phase needs both ports. -/
theorem commit_badAccess {g : Group} {events : List Event} {abort : Abort}
    (fails : commit g events = .error abort) : abort.cause.badAccess = true ∧
      ¬ (firstHasInput g.blocks = true ∧ lastHasOutput g.blocks = true) := by
  unfold commit at fails
  rcases Except.bind_eq_error fails with fails | ⟨_, _, fails⟩
  · obtain ⟨cause, missing, rfl⟩ := Except.mapError_eq_error fails
    refine ⟨firstInput_badAccess missing, fun both => ?_⟩
    obtain ⟨w, found⟩ := firstInput_ok_iff.mpr both.1
    rw [found] at missing
    cases missing
  · rcases Except.bind_eq_error fails with fails | ⟨_, _, fails⟩
    · obtain ⟨cause, missing, rfl⟩ := Except.mapError_eq_error fails
      rw [lastOutput_postReads] at missing
      refine ⟨lastOutput_badAccess missing, fun both => ?_⟩
      obtain ⟨w, found⟩ := lastOutput_ok_iff.mpr both.2
      rw [found] at missing
      cases missing
    · cases fails

/-- The blocked callbacks fail at a port without buffer only. -/
theorem unclog_badAccess {call : Nat → Nat → Event} {answer : Nat → Nat → Bool} {neighbour : Nat}
    {action : SchedulerAction} {ports : List (Nat × Nat × Bool)} {events : List Event}
    {abort : Abort} (fails : unclog call answer neighbour action ports events = .error abort) :
    abort.cause.badAccess = true := by
  induction ports generalizing events with
  | nil => cases fails
  | cons port rest ih =>
      obtain ⟨p, i, buffered⟩ := port
      cases buffered with
      | false => cases fails; rfl
      | true => exact ih fails

/-! ## The do_work loop -/

/-- How many input and output ports the blocks have. -/
def portCounts (blocks : List Block) : List (Nat × Nat) :=
  blocks.map fun b => (b.inputs.length, b.outputs.length)

private theorem firstHasInput_congr {blocks others : List Block}
    (same : portCounts blocks = portCounts others) :
    firstHasInput blocks = firstHasInput others := by
  have count (blocks : List Block) : firstHasInput blocks =
      (portCounts blocks).head?.any fun counts => !decide (counts.1 = 0) := by
    unfold firstHasInput portCounts
    cases blocks with
    | nil => rfl
    | cons b rest => cases ports : b.inputs <;> simp [ports]
  rw [count, count, same]

private theorem lastHasOutput_congr {blocks others : List Block}
    (same : portCounts blocks = portCounts others) :
    lastHasOutput blocks = lastHasOutput others := by
  have count (blocks : List Block) : lastHasOutput blocks =
      (portCounts blocks).getLast?.any fun counts => !decide (counts.2 = 0) := by
    unfold lastHasOutput portCounts
    rw [List.getLast?_map]
    cases blocks.getLast? with
    | none => rfl
    | some b => cases ports : b.outputs <;> simp [ports]
  rw [count, count, same]

/-- Whether a block can be handed its counts depends on the numbers of ports alone. -/
theorem Placeable.congr {blocks others : List Block} {b : Block}
    (same : portCounts blocks = portCounts others) (placeable : Placeable blocks b) :
    Placeable others b := by
  refine ⟨fun ports => ?_, fun ports => ?_⟩
  · rw [← firstHasInput_congr same]
    exact placeable.input ports
  · rw [← lastHasOutput_congr same]
    exact placeable.output ports

private theorem portCounts_report (ran rest : List Block) (b : Block) (r : WorkReport) :
    portCounts (ran ++ [b.report r] ++ rest) = portCounts (ran ++ b :: rest) := by
  have counts : ((b.report r).inputs.length, (b.report r).outputs.length) =
      (b.inputs.length, b.outputs.length) := Prod.ext List.length_mapIdx List.length_mapIdx
  simp only [portCounts, List.append_assoc, List.singleton_append, List.map_append, List.map_cons,
    counts]

/-- The do_work loop ends without a result at a block: all blocks before it have been
placed and left; the block itself holds the loop up, or lacks a port it is handed the
count of. -/
structure StopsAt (answers : Answers) (ran todo : List Block) (abort : Abort) (i : Nat)
    (b : Block) : Prop where
  present : todo[i]? = some b
  part : b.isHier = false
  before : ∀ j < i, ∀ other, todo[j]? = some other → other.isHier = false →
    Placeable (ran ++ todo) other ∧
      ¬ HoldsUp answers (ran.length + todo.length) (ran.length + j) other
  outcome : (abort.cause.badAccess = false ∧ Placeable (ran ++ todo) b ∧
      HoldsUp answers (ran.length + todo.length) (ran.length + i) b) ∨
    (abort.cause.badAccess = true ∧ ¬ Placeable (ran ++ todo) b)

/-- The loop ends at its first block. -/
theorem StopsAt.first {answers : Answers} {ran rest : List Block} {b : Block} {abort : Abort}
    (part : b.isHier = false)
    (outcome : (abort.cause.badAccess = false ∧ Placeable (ran ++ b :: rest) b ∧
        HoldsUp answers (ran.length + (b :: rest).length) ran.length b) ∨
      (abort.cause.badAccess = true ∧ ¬ Placeable (ran ++ b :: rest) b)) :
    StopsAt answers ran (b :: rest) abort 0 b :=
  ⟨rfl, part, fun j below => (Nat.not_lt_zero j below).elim, outcome⟩

/-- The loop gets past its first block and ends later. -/
theorem StopsAt.later {answers : Answers} {ran rest : List Block} {b after next : Block}
    {abort : Abort} {i : Nat} (stops : StopsAt answers (ran ++ [after]) rest abort i next)
    (counts : portCounts (ran ++ [after] ++ rest) = portCounts (ran ++ b :: rest))
    (behind : b.isHier = false → Placeable (ran ++ b :: rest) b ∧
      ¬ HoldsUp answers (ran.length + (b :: rest).length) ran.length b) :
    StopsAt answers ran (b :: rest) abort (i + 1) next := by
  obtain ⟨present, part, before, outcome⟩ := stops
  have length : (ran ++ [after]).length + rest.length = ran.length + (b :: rest).length := by
    simp only [List.length_append, List.length_cons, List.length_nil]
    omega
  have position (j : Nat) : (ran ++ [after]).length + j = ran.length + (j + 1) := by
    simp only [List.length_append, List.length_singleton]
    omega
  simp only [length, position] at before outcome
  refine ⟨present, part, fun j below other listed taking => ?_, ?_⟩
  · cases j with
    | zero => cases listed; exact behind taking
    | succ j =>
        obtain ⟨placeable, free⟩ := before j (Nat.lt_of_succ_lt_succ below) other listed taking
        exact ⟨placeable.congr counts, free⟩
  · rcases outcome with ⟨safe, placeable, holds⟩ | ⟨bad, unplaced⟩
    · exact Or.inl ⟨safe, placeable.congr counts, holds⟩
    · exact Or.inr ⟨bad, fun placeable => unplaced (placeable.congr counts.symm)⟩

/-- **Where the do_work loop ends without a result.** -/
theorem workLoop_error {answers : Answers} {ran todo : List Block} {l : Loop} {abort : Abort}
    (stuck : workLoop answers ran todo l = .error abort) :
    ∃ i b, StopsAt answers ran todo abort i b := by
  induction todo generalizing ran l with
  | nil => cases stuck
  | cons b rest ih =>
      unfold workLoop at stuck
      split at stuck
      · rename_i hier
        obtain ⟨i, next, stops⟩ := ih stuck
        refine ⟨i + 1, next, stops.later ?_ fun part => ?_⟩
        · rw [List.append_assoc, List.singleton_append]
        · rw [hier] at part
          cases part
      · rename_i part
        rw [Bool.not_eq_true] at part
        rcases Except.bind_eq_error stuck with stuck | ⟨placed, places, stuck⟩
        · obtain ⟨cause, fails, rfl⟩ := Except.mapError_eq_error stuck
          exact ⟨0, b, .first part (Or.inr (place_badAccess fails))⟩
        · have places := Except.mapError_eq_ok places
          have placeable := placeable_of_place places
          split at stuck
          · rename_i alone
            rw [Bool.and_eq_true, List.isEmpty_iff, Bool.not_eq_true'] at alone
            obtain ⟨empty, async⟩ := alone
            cases stuck
            subst empty
            exact ⟨0, b, .first part (Or.inl ⟨rfl, placeable, Or.inr ⟨rfl, Or.inl async⟩⟩)⟩
          · rename_i async
            rcases Except.bind_eq_error stuck with stuck | ⟨⟨after, middle⟩, inner, stuck⟩
            · have outcome := blockLoop_stuck stuck
              rw [final_eq_find? b rest] at outcome
              refine ⟨0, b, .first part (Or.inl ?_)⟩
              rcases outcome with ⟨spins, endless⟩ | ⟨waits, last, r, final, silent⟩
              · exact ⟨by rw [spins]; rfl, placeable, Or.inl endless⟩
              · have empty := List.isEmpty_iff.mp last
                subst empty
                exact ⟨by rw [waits]; rfl, placeable, Or.inr ⟨rfl, Or.inr ⟨r, final, silent⟩⟩⟩
            · obtain ⟨_, _, rfl, _, _⟩ := place_eq_ok places
              obtain ⟨r, _, found, left, _, _, called⟩ := blockLoop_final inner
              rw [Block.report_place] at left
              subst left
              obtain ⟨i, next, stops⟩ := ih stuck
              refine ⟨i + 1, next, stops.later (portCounts_report ran rest b r)
                fun _ => ⟨placeable, ?_⟩⟩
              rw [final_eq_find? b rest] at found
              rintro (endless | ⟨last, uncalled⟩)
              · rw [found] at endless
                cases endless
              · have empty : rest.isEmpty = true := by
                  rw [List.length_cons] at last
                  exact List.isEmpty_iff.mpr (List.length_eq_zero_iff.mp (by omega))
                rcases uncalled with plain | ⟨other, final, code, silent⟩
                · exact async (by rw [empty, plain]; rfl)
                · rw [found] at final
                  cases final
                  rw [called empty code] at silent
                  cases silent

/-- A loop that returns has not been held up. -/
theorem not_holdsUp_of_runs {answers : Answers} {todo blocks : List Block} {l l' : Loop}
    (runs : workLoop answers [] todo l = .ok (blocks, l')) {p : Nat} {b : Block}
    (present : todo[p]? = some b) (part : b.isHier = false) :
    ¬ HoldsUp answers todo.length p b := by
  obtain ⟨r, _, _, found, _, _, called⟩ := workLoop_calls runs present part
  rw [List.length_nil, Nat.zero_add, Nat.zero_add] at found
  rintro (endless | ⟨last, plain | ⟨other, final, code, silent⟩⟩)
  · rw [found] at endless
    cases endless
  · rw [(called last).1] at plain
    cases plain
  · rw [found] at final
    cases final
    rw [(called last).2 code] at silent
    cases silent

/-! ## Buffers -/

private theorem inputsBuffered_congr {g g' : Group}
    (same : ∀ p i, (g'.input p i).map (fun w => w.bufp.isSome) =
      (g.input p i).map fun w => w.bufp.isSome) : InputsBuffered g' ↔ InputsBuffered g := by
  have onward {g g' : Group} (same : ∀ p i, (g'.input p i).map (fun w => w.bufp.isSome) =
      (g.input p i).map fun w => w.bufp.isSome) (all : InputsBuffered g) : InputsBuffered g' := by
    intro p i w listed
    have both := same p i
    rw [listed, Option.map_some] at both
    obtain ⟨w0, port, marked⟩ := Option.map_eq_some_iff.mp both.symm
    rw [← marked, all p i w0 port]
  exact ⟨onward fun p i => (same p i).symm, onward same⟩

private theorem outputsBuffered_congr {g g' : Group}
    (same : ∀ p i, (g'.output p i).map BlockWorkOutput.bufp =
      (g.output p i).map BlockWorkOutput.bufp) : OutputsBuffered g' ↔ OutputsBuffered g := by
  have onward {g g' : Group} (same : ∀ p i, (g'.output p i).map BlockWorkOutput.bufp =
      (g.output p i).map BlockWorkOutput.bufp) (all : OutputsBuffered g) : OutputsBuffered g' := by
    intro p i w listed
    have both := same p i
    rw [listed, Option.map_some] at both
    obtain ⟨w0, port, marked⟩ := Option.map_eq_some_iff.mp both.symm
    rw [← marked, all p i w0 port]
  exact ⟨onward fun p i => (same p i).symm, onward same⟩

private theorem inputs_buffered_iff {g : Group} :
    (∀ port ∈ List.cells Block.inputs (fun w => w.bufp.isSome) g.blocks, port.2.2 = true) ↔
      InputsBuffered g := by
  constructor
  · intro all p i w listed
    obtain ⟨b, present, port⟩ := Option.bind_eq_some_iff.mp listed
    exact all (p, i, w.bufp.isSome) (List.mem_cells.mpr ⟨b, w, present, port, rfl⟩)
  · rintro all ⟨p, i, mark⟩ member
    obtain ⟨b, w, present, port, rfl⟩ := List.mem_cells.mp member
    exact all p i w (Option.bind_eq_some_iff.mpr ⟨b, present, port⟩)

private theorem outputs_buffered_iff {g : Group} :
    (∀ port ∈ List.cells Block.outputs (fun w => w.bufp.isSome) g.blocks, port.2.2 = true) ↔
      OutputsBuffered g := by
  constructor
  · intro all p i w listed
    obtain ⟨b, present, port⟩ := Option.bind_eq_some_iff.mp listed
    exact all (p, i, w.bufp.isSome) (List.mem_cells.mpr ⟨b, w, present, port, rfl⟩)
  · rintro all ⟨p, i, mark⟩ member
    obtain ⟨b, w, present, port, rfl⟩ := List.mem_cells.mp member
    exact all p i w (Option.bind_eq_some_iff.mpr ⟨b, present, port⟩)

/-- The input ports of a group after the blocks have run. -/
theorem input_worked {answers : Answers} {g : Group} {blocks : List Block} {l : Loop}
    {buffers : Nat → Buffer} (runs : workLoop answers [] g.blocks {} = .ok (blocks, l))
    (p i : Nat) :
    (Group.input { blocks := blocks.map postReads, buffers } p i).map (fun w => w.bufp.isSome) =
      (g.input p i).map fun w => w.bufp.isSome := by
  rw [workLoop_blocks runs, answers.served_nil_left]
  unfold Group.input
  rw [List.getElem?_map, List.getElem?_mapIdx, Option.map_map]
  cases g.blocks[p]? with
  | none => rfl
  | some b =>
      rw [Option.map_some, Option.bind_some, Option.bind_some, Function.comp_apply]
      have read (w : BlockWorkInput) : (postRead w).bufp.isSome = w.bufp.isSome :=
        Option.isSome_map
      change (((answers.serve g.blocks.length p b).inputs.map postRead)[i]?).map _ = _
      rw [List.getElem?_map, Option.map_map]
      simp only [Function.comp_def, read]
      rcases answers.serve_cases g.blocks.length p b with same | ⟨r, _, same⟩
      · rw [same]
      · rw [same, Block.inputs_report_getElem?, Option.map_map]
        rfl

/-- Which ports have a buffer is what it was before the iteration. -/
theorem buffered_of_runs {answers : Answers} {g ready : Group} {blocks : List Block} {l : Loop}
    (same : g.SameTotals ready) (runs : workLoop answers [] ready.blocks {} = .ok (blocks, l))
    (buffers : Nat → Buffer) :
    (InputsBuffered ⟨blocks.map postReads, buffers⟩ ↔ InputsBuffered g) ∧
      (OutputsBuffered ⟨blocks.map postReads, buffers⟩ ↔ OutputsBuffered g) := by
  refine ⟨inputsBuffered_congr fun p i => (input_worked runs p i).trans ?_,
    outputsBuffered_congr fun p i => (output_worked runs p i).trans (same.output_bufp p i)⟩
  have read := congrArg (Option.map Option.isSome) (same.input_bufp p i)
  rwa [Option.map_map, Option.map_map] at read

/-- The input callbacks go through when every input port has a buffer. -/
theorem unclogInputs_ok_iff {answers : Answers} {blocks : List Block} {events : List Event}
    (buffers : Nat → Buffer) :
    (∃ later, unclogInputs answers blocks events = .ok later) ↔
      InputsBuffered ⟨blocks, buffers⟩ := by
  rw [← inputs_buffered_iff]
  constructor
  · rintro ⟨later, callbacks⟩
    exact (unclog_eq_ok.mp callbacks).1
  · intro all
    exact ⟨_, unclog_eq_ok.mpr ⟨all, rfl⟩⟩

private theorem unclogOutputs_ok_iff {answers : Answers} {blocks : List Block} {events : List Event}
    (buffers : Nat → Buffer) :
    (∃ later, unclogOutputs answers blocks events = .ok later) ↔
      OutputsBuffered ⟨blocks, buffers⟩ := by
  rw [← outputs_buffered_iff]
  constructor
  · rintro ⟨later, callbacks⟩
    exact (unclog_eq_ok.mp callbacks).1
  · intro all
    exact ⟨_, unclog_eq_ok.mpr ⟨all, rfl⟩⟩

/-! ## The iteration -/

/-- The ports of the blocks are those of the group, whatever the checks and the
do_work loop do. -/
theorem portCounts_of_sameTotals {g g' : Group} (same : g.SameTotals g') :
    portCounts g'.blocks = portCounts g.blocks := by
  have bare (b : Block) : (b.inputs.length, b.outputs.length) =
      (b.bare.inputs.length, b.bare.outputs.length) :=
    Prod.ext b.bare_length_inputs.symm b.bare_length_outputs.symm
  have through (blocks : List Block) : portCounts blocks =
      (blocks.map Block.bare).map fun b => (b.inputs.length, b.outputs.length) := by
    rw [portCounts, List.map_map]
    exact List.map_congr_left fun b _ => bare b
  rw [through, through, same.blocks]

private theorem portCounts_of_runs {answers : Answers} {todo blocks : List Block} {l l' : Loop}
    (runs : workLoop answers [] todo l = .ok (blocks, l')) :
    portCounts blocks = portCounts todo := by
  rw [workLoop_blocks runs, answers.served_nil_left]
  apply List.ext_getElem?
  intro p
  unfold portCounts
  rw [List.getElem?_map, List.getElem?_map, List.getElem?_mapIdx, Option.map_map]
  congr 1
  funext b
  exact Prod.ext (answers.length_inputs_serve _ p b) (answers.length_outputs_serve _ p b)

/-- An iteration does not get past a do_work loop that does not return. -/
theorem runOneIteration_of_stuck {answers : Answers} {g ready : Group} {abort : Abort}
    (checks : negotiate answers g = .ok (ready, .ready))
    (stuck : workLoop answers [] ready.blocks {} = .error abort) :
    runOneIteration answers g = .error abort := by
  unfold runOneIteration
  rw [checks]
  change workLoop answers [] ready.blocks {} >>= _ = _
  rw [stuck]
  rfl

/-- What follows a do_work loop that returns. -/
theorem runOneIteration_of_runs {answers : Answers} {g ready : Group} {blocks : List Block}
    {l : Loop} (checks : negotiate answers g = .ok (ready, .ready))
    (runs : workLoop answers [] ready.blocks {} = .ok (blocks, l)) :
    runOneIteration answers g = (do
      let (g, events) ← commit { ready with blocks } l.events
      let events ← (
        if l.unclogInputs then unclogInputs answers g.blocks events
        else if l.unclogOutputs then unclogOutputs answers g.blocks events
        else .ok events)
      return ⟨l.status, g, events⟩) := by
  unfold runOneIteration
  rw [checks]
  change workLoop answers [] ready.blocks {} >>= _ = _
  rw [runs]
  rfl

private theorem runOneIteration_of_commits {answers : Answers} {g ready after : Group}
    {blocks : List Block} {l : Loop} {committed : List Event}
    (checks : negotiate answers g = .ok (ready, .ready))
    (runs : workLoop answers [] ready.blocks {} = .ok (blocks, l))
    (commits : commit { ready with blocks } l.events = .ok (after, committed)) :
    runOneIteration answers g = (do
      let events ← (
        if l.unclogInputs then unclogInputs answers after.blocks committed
        else if l.unclogOutputs then unclogOutputs answers after.blocks committed
        else .ok committed)
      return ⟨l.status, after, events⟩) := by
  rw [runOneIteration_of_runs checks runs, commits]
  rfl

private theorem runOneIteration_of_outputsBlocked {answers : Answers} {g g' : Group}
    (checks : negotiate answers g = .ok (g', .outputsBlocked)) :
    runOneIteration answers g = (do
      return ⟨.blkdOut, g', ← unclogOutputs answers g'.blocks []⟩) := by
  unfold runOneIteration
  rw [checks]
  rfl

/-- Whether a block can be handed its counts does not depend on those it has. -/
theorem Placeable.of_bare {blocks : List Block} {b b' : Block} (bare : b'.bare = b.bare)
    (placeable : Placeable blocks b) : Placeable blocks b' := by
  have inputs : b'.inputs.length = b.inputs.length := by
    rw [← b'.bare_length_inputs, bare, b.bare_length_inputs]
  have outputs : b'.outputs.length = b.outputs.length := by
    rw [← b'.bare_length_outputs, bare, b.bare_length_outputs]
  refine ⟨fun ports => placeable.input fun none => ports ?_,
    fun ports => placeable.output fun none => ports ?_⟩
  · rw [none] at inputs
    exact List.length_eq_zero_iff.mp inputs
  · rw [none] at outputs
    exact List.length_eq_zero_iff.mp outputs

/-- The counts on offer do not matter to what holds the loop up. -/
theorem HeldUp.congr {answers : Answers} {g g' : Group} (same : g.SameTotals g')
    (held : HeldUp answers g) : HeldUp answers g' := by
  obtain ⟨p, b, here, part, holds, ports⟩ := held
  obtain ⟨b', here', bare⟩ := same.block here
  refine ⟨p, b', here', ?_, ?_, fun q below other listed taking => ?_⟩
  · rw [← Block.bare_isHier, bare, Block.bare_isHier, part]
  · unfold HoldsUp at holds ⊢
    rwa [same.length_eq, ← b'.bare_isAsyncBlock, bare, b.bare_isAsyncBlock]
  · obtain ⟨other0, listed0, bare0⟩ := same.symm.block listed
    have placeable := ports q below other0 listed0
      (by rw [← Block.bare_isHier, bare0, Block.bare_isHier, taking])
    exact (placeable.of_bare bare0.symm).congr (portCounts_of_sameTotals same).symm

/-- What the rest of an iteration needs once the do_work loop has returned. -/
theorem flags_of_runs {answers : Answers} {g ready : Group} {blocks : List Block} {l : Loop}
    (same : g.SameTotals ready) (runs : workLoop answers [] ready.blocks {} = .ok (blocks, l)) :
    (l.unclogInputs = true ↔ (answers.lastReport g.blocks g.blocks.length).any
        (·.ret = .insufficientInputItems) = true) ∧
      (l.unclogInputs = false ∧ l.unclogOutputs = true ↔
        (answers.lastReport g.blocks g.blocks.length).any
          (·.ret = .insufficientOutputItems) = true) := by
  obtain ⟨flagInputs, flagOutputs, _⟩ := workLoop_flags runs rfl rfl (by decide)
  rw [List.length_nil, Nat.zero_add, lastReport_of_sameTotals same] at flagInputs flagOutputs
  rw [flagInputs, flagOutputs]
  refine ⟨Iff.rfl, and_iff_right_of_imp fun lacks => ?_⟩
  cases reported : answers.lastReport g.blocks g.blocks.length with
  | none => rfl
  | some r =>
      rw [reported] at lacks
      have code : r.ret = .insufficientOutputItems := of_decide_eq_true lacks
      rw [Option.any_some, code]
      rfl

/-- An iteration that keeps to its ports has them where it needs them. -/
theorem portsPresent_of_inBounds {answers : Answers} {g : Group} (safe : InBounds answers g) :
    PortsPresent answers g := by
  have keeps {P : Prop} {abort : Abort} (fails : runOneIteration answers g = .error abort)
      (bad : abort.cause.badAccess = true) : P := by
    rw [safe abort fails] at bad
    cases bad
  refine ⟨fun ⟨g', checks⟩ => ?_, fun reaches => ?_⟩
  · have same := (negotiate_cases checks).1
    have body := runOneIteration_of_outputsBlocked checks
    cases callbacks : unclogOutputs answers g'.blocks [] with
    | error abort =>
        rw [callbacks] at body
        exact keeps body (unclog_badAccess callbacks)
    | ok events =>
        exact (outputsBuffered_congr same.output_bufp).mp
          ((unclogOutputs_ok_iff g'.buffers).mp ⟨events, callbacks⟩)
  · obtain ⟨ready, checks⟩ := passes_eq_true.mp reaches
    have same := (negotiate_cases checks).1
    cases runs : workLoop answers [] ready.blocks {} with
    | error abort =>
        have fails := runOneIteration_of_stuck checks runs
        obtain ⟨p, b, here, part, before, ⟨_, placeable, holds⟩ | ⟨bad, _⟩⟩ := workLoop_error runs
        · left
          simp only [List.length_nil, Nat.zero_add, List.nil_append] at before placeable holds
          refine HeldUp.congr same.symm ⟨p, b, here, part, holds, fun q below other listed taking =>
            ?_⟩
          rcases Nat.lt_or_eq_of_le below with earlier | rfl
          · exact (before q earlier other listed taking).1
          · rw [here] at listed
            cases listed
            exact placeable
        · exact keeps fails bad
    | ok result =>
        obtain ⟨blocks, l⟩ := result
        have counts := (portCounts_of_runs runs).trans (portCounts_of_sameTotals same)
        obtain ⟨flagInputs, flagOutputs⟩ := flags_of_runs same runs
        cases commits : commit { ready with blocks } l.events with
        | error abort =>
            have fails : runOneIteration answers g = .error abort := by
              rw [runOneIteration_of_runs checks runs, commits]
              rfl
            exact keeps fails (commit_badAccess commits).1
        | ok result =>
            obtain ⟨after, committed⟩ := result
            have body := runOneIteration_of_commits checks runs commits
            obtain ⟨w0, w, atStart, atEnd, rfl, _⟩ := commit_eq_ok commits
            refine Or.inr ⟨?_, ?_, fun lacks => ?_, fun lacks => ?_⟩
            · rw [← firstHasInput_congr counts]
              exact firstInput_ok_iff.mp ⟨w0, atStart⟩
            · rw [← lastHasOutput_congr counts]
              exact lastOutput_ok_iff.mp ⟨w, atEnd⟩
            · cases callbacks : unclogInputs answers (blocks.map postReads) committed with
              | error abort =>
                  have fails : runOneIteration answers g = .error abort := by
                    rw [body, if_pos (flagInputs.mpr lacks), callbacks]
                    rfl
                  exact keeps fails (unclog_badAccess callbacks)
              | ok events =>
                  exact (buffered_of_runs same runs ready.buffers).1.mp
                    ((unclogInputs_ok_iff _).mp ⟨events, callbacks⟩)
            · obtain ⟨quiet, flagged⟩ := flagOutputs.mpr lacks
              cases callbacks : unclogOutputs answers (blocks.map postReads) committed with
              | error abort =>
                  have fails : runOneIteration answers g = .error abort := by
                    rw [body, if_neg (Bool.eq_false_iff.mp quiet), if_pos flagged, callbacks]
                    rfl
                  exact keeps fails (unclog_badAccess callbacks)
              | ok events =>
                  exact (buffered_of_runs same runs ready.buffers).2.mp
                    ((unclogOutputs_ok_iff _).mp ⟨events, callbacks⟩)

/-- An iteration that has its ports where it needs them keeps to them. -/
theorem inBounds_of_portsPresent {answers : Answers} {g : Group}
    (present : PortsPresent answers g) : InBounds answers g := by
  intro abort fails
  cases checks : negotiate answers g with
  | error cause =>
      unfold runOneIteration at fails
      rw [checks] at fails
      cases fails
      rcases negotiate_error checks with rfl | rfl <;> rfl
  | ok result =>
      obtain ⟨ready, readiness⟩ := result
      have same := (negotiate_cases checks).1
      cases readiness with
      | inputsBlocked =>
          unfold runOneIteration at fails
          rw [checks] at fails
          cases fails
      | outputsBlocked =>
          have buffered := present.outputsBlocked ⟨ready, checks⟩
          obtain ⟨later, callbacks⟩ := (@unclogOutputs_ok_iff answers _ [] ready.buffers).mpr
            ((outputsBuffered_congr same.output_bufp).mpr buffered)
          rw [runOneIteration_of_outputsBlocked checks, callbacks] at fails
          cases fails
      | ready =>
          have ports := present.ready (passes_eq_true.mpr ⟨ready, checks⟩)
          cases runs : workLoop answers [] ready.blocks {} with
          | error stuck =>
              rw [runOneIteration_of_stuck checks runs] at fails
              cases fails
              obtain ⟨i, b, here, part, before, ⟨safe, _, _⟩ | ⟨_, unplaced⟩⟩ := workLoop_error runs
              · exact safe
              · simp only [List.length_nil, Nat.zero_add, List.nil_append] at before unplaced
                rcases ports with held | ⟨first, last, _⟩
                · obtain ⟨p, holder, there, taking, holds, placeable⟩ := held.congr same
                  by_cases below : i ≤ p
                  · exact (unplaced (placeable i below b here part)).elim
                  · exact ((before p (Nat.lt_of_not_le below) holder there taking).2 holds).elim
                · have counts := portCounts_of_sameTotals same
                  exact (unplaced ⟨fun _ => (firstHasInput_congr counts).trans first,
                    fun _ => (lastHasOutput_congr counts).trans last⟩).elim
          | ok result =>
              obtain ⟨blocks, l⟩ := result
              have counts := (portCounts_of_runs runs).trans (portCounts_of_sameTotals same)
              obtain ⟨flagInputs, flagOutputs⟩ := flags_of_runs same runs
              obtain ⟨first, last, inputs, outputs⟩ := ports.resolve_left fun held => by
                obtain ⟨p, b, here, part, holds, _⟩ := held.congr same
                exact not_holdsUp_of_runs runs here part holds
              rw [runOneIteration_of_runs checks runs] at fails
              rcases Except.bind_eq_error fails with fails | ⟨⟨after, committed⟩, commits, fails⟩
              · refine ((commit_badAccess fails).2 ⟨?_, ?_⟩).elim
                · exact (firstHasInput_congr counts).trans first
                · exact (lastHasOutput_congr counts).trans last
              · obtain ⟨_, _, _, _, rfl, _⟩ := commit_eq_ok commits
                rcases Except.bind_eq_error fails with fails | ⟨_, _, fails⟩
                · obtain ⟨inputsKept, outputsKept⟩ := buffered_of_runs same runs ready.buffers
                  by_cases flag : l.unclogInputs = true
                  · obtain ⟨later, callbacks⟩ := (@unclogInputs_ok_iff answers _ committed _).mpr
                      (inputsKept.mpr (inputs (flagInputs.mp flag)))
                    rw [if_pos flag, callbacks] at fails
                    cases fails
                  · rw [if_neg flag] at fails
                    split at fails
                    · rename_i flagged
                      have lacks := flagOutputs.mp ⟨Bool.eq_false_iff.mpr flag, flagged⟩
                      obtain ⟨later, callbacks⟩ := (@unclogOutputs_ok_iff answers _ committed _).mpr
                        (outputsKept.mpr (outputs lacks))
                      rw [callbacks] at fails
                      cases fails
                    · cases fails
                · cases fails

/-- **When all accesses to ports are in bounds.** -/
theorem in_bounds_iff (answers : Answers) (g : Group) :
    InBounds answers g ↔ PortsPresent answers g :=
  ⟨portsPresent_of_inBounds, inBounds_of_portsPresent⟩

/-- A source that fills the buffer 0. -/
def sourceGroup : Group where
  blocks := [{ kind := .triton true, inputs := [], outputs := [{ bufp := some 0 }] }]
  buffers := fun _ => { bufSize := 16, totalWritten := 0 }

/-- A source that makes four items: after its call of `do_work`, the iteration reads
the count of an input port that the source does not have. -/
theorem source_reads_no_port :
    ∃ abort, runOneIteration (moving 4) sourceGroup = .error abort ∧ abort.cause = .noInputPort ∧
      ¬ InBounds (moving 4) sourceGroup :=
  ⟨_, rfl, rfl, fun safe => Bool.noConfusion (safe _ rfl)⟩

end GraphExecutor

end TorchDsp
