import TorchDsp.Executor.Notifications
import TorchDsp.Executor.OutputCheck
import TorchDsp.Executor.PhaseEffects
import TorchDsp.Executor.Unclog

/-! # When the checks pass

A check passes when all its ports are ready, and ports that offer the same are ready
together. A port is ever ready only if its buffer, full or empty, would satisfy it
(`TorchDsp.GraphExecutor.sizedInputs_of_ready`); what the ports ask for is the same in
every phase (`TorchDsp.GraphExecutor.SameDemands`).
-/

namespace TorchDsp

open GraphExecutor

/-- A buffer of the size can hold as many items as the reader asks for. -/
def BufferReader.Suits (r : BufferReader) (bufSize : Nat) : Prop :=
  0 < bufSize ∧ (0 < r.minBufferRead → intOfSize r.minBufferRead ≤ bufSize)

/-- The buffer has room for a count that a block with the output multiple may be
handed. -/
structure Buffer.Suits (buffer : Buffer) (multiple : Option Nat) : Prop where
  minFill : buffer.minBufferFill ≤ buffer.bufSize
  count : ∃ count, 0 < count ∧ count ≤ buffer.bufSize ∧ count ≤ intMax ∧
    (0 < buffer.maxBufferFill → count ≤ buffer.maxBufferFill) ∧ multiple.getD 1 % 2 ^ 32 ∣ count

/-- The buffers that feed the first block suit its readers. -/
def Group.SizedInputs (g : Group) : Prop :=
  ∀ i r, g.reader 0 i = some r → r.Suits (g.buffers r.source).bufSize

/-- The buffers that the last block writes suit it. -/
def Group.SizedOutputs (g : Group) : Prop :=
  ∀ last, g.blocks.getLast? = some last → ∀ k ∈ last.writes, (g.buffers k).Suits last.outputMultiple

namespace GraphExecutor

variable {answers : Answers} {g g' : Group} {w : BlockWorkInput} {r : BufferReader}
  {v : BlockWorkOutput} {k : Nat} {multiple : Option Nat} {answer ready : Bool}
  {point point' : Point}

/-! ## Ports and checks -/

/-- The input check passes when every port does. -/
theorem checkFirst_passes_iff
    (checks : checkFirst answers g = .ok (g', ready)) :
    ready = true ↔ InputsReady answers g := by
  unfold checkFirst at checks
  cases shape : g.blocks with
  | nil => rw [shape] at checks; cases checks
  | cons first rest =>
      rw [shape] at checks
      cases checks
      rw [checkInputs_passes_iff]
      simp only [InputsReady, Group.input, shape, List.getElem?_cons_zero, Option.bind_some,
        Nat.zero_add]

/-- The output check passes when every port does. -/
theorem checkLast_passes_iff
    (checks : checkLast answers g = .ok (g', ready)) :
    ready = true ↔ OutputsReady answers g := by
  unfold checkLast at checks
  cases atEnd : g.blocks.getLast? with
  | none => rw [atEnd] at checks; cases checks
  | some last =>
      simp only [atEnd] at checks
      obtain ⟨⟨checked, answer⟩, loop, ends⟩ := Except.bind_eq_ok checks
      cases ends
      rw [checkOutputs_passes_iff loop]
      simp only [OutputsReady, atEnd, Option.some.injEq, forall_eq', Nat.zero_add]

/-- Ports that are all ready pass the output check. -/
theorem checkOutputs_of_ready {writeInfo : Nat → Bool} {i : Nat} {ws : List BlockWorkOutput}
    (ready : ∀ j w, ws[j]? = some w → outputReady g multiple (writeInfo (i + j)) w = .ok true) :
    ∃ checked, checkOutputs g multiple writeInfo i ws = .ok (checked, true) := by
  induction ws generalizing i with
  | nil => exact ⟨[], rfl⟩
  | cons w rest ih =>
      obtain ⟨checked, passes⟩ := @ih (i + 1) fun j w listed => by
        have later := ready (j + 1) w listed
        rwa [Nat.add_left_comm, Nat.add_comm] at later
      refine ⟨negotiateOutput g multiple w :: checked, ?_⟩
      have first : outputReady g multiple (writeInfo i) w = .ok true := ready 0 w rfl
      simp only [checkOutputs, first, passes, bind, Except.bind, ↓reduceIte, pure, Except.pure]

/-- A ready first block passes the input check. -/
theorem checkFirst_of_ready (filled : g.blocks ≠ []) (ready : InputsReady answers g) :
    ∃ g', checkFirst answers g = .ok (g', true) := by
  cases shape : g.blocks with
  | nil => exact (filled shape).elim
  | cons first rest =>
      have checks : ∃ g' answer, checkFirst answers g = .ok (g', answer) := by
        simp only [checkFirst, shape]
        exact ⟨_, _, rfl⟩
      obtain ⟨g', answer, checks⟩ := checks
      exact ⟨g', by rw [checks, (checkFirst_passes_iff checks).mpr ready]⟩

/-- A ready last block passes the output check. -/
theorem checkLast_of_ready (filled : g.blocks ≠ []) (ready : OutputsReady answers g) :
    ∃ g', checkLast answers g = .ok (g', true) := by
  cases atEnd : g.blocks.getLast? with
  | none => exact (filled (List.getLast?_eq_none_iff.mp atEnd)).elim
  | some last =>
      have ports : ∀ j w, last.outputs[j]? = some w →
          outputReady g last.outputMultiple (answers.writeInfo (0 + j)) w = .ok true := by
        intro j w listed
        rw [Nat.zero_add]
        exact ready last atEnd j w listed
      obtain ⟨checked, passes⟩ := checkOutputs_of_ready ports
      simp only [checkLast, atEnd, passes, bind, Except.bind, pure, Except.pure]
      exact ⟨_, rfl⟩

/-- Ports that offer the same counts pass the same check. -/
theorem inputsReady_of_same (blocks : g'.blocks.map Block.bare = g.blocks.map Block.bare)
    (written : ∀ i r, g.reader 0 i = some r →
      (g'.buffers r.source).totalWritten = (g.buffers r.source).totalWritten)
    (ready : InputsReady answers g') : InputsReady answers g := by
  intro i w port
  have bufp := Group.SameTotals.input_bufp
    (g := { g with buffers := g'.buffers }) ⟨blocks, rfl⟩ 0 i
  have port' : Group.input { g with buffers := g'.buffers } 0 i = some w := port
  rw [port', Option.map_some] at bufp
  obtain ⟨w', here, same⟩ := Option.map_eq_some_iff.mp bufp
  have passes := ready i w' here
  unfold inputReady at passes ⊢
  rw [same] at passes
  cases attached : w.bufp with
  | none => rfl
  | some r =>
      have reads : g.reader 0 i = some r := by rw [Group.reader, port, Option.bind_some, attached]
      simp only [attached, Group.itemsAvailable, written i r reads] at passes ⊢
      exact passes

/-- The output check reads the room and the limits, not the counts. -/
theorem outputsReady_of_same (blocks : g'.blocks.map Block.bare = g.blocks.map Block.bare)
    (room : ∀ i k, g.outputBuffer (g.blocks.length - 1) i = some k →
      g'.spaceAvailable k = g.spaceAvailable k ∧
        (g'.buffers k).maxBufferFill = (g.buffers k).maxBufferFill ∧
        (g'.buffers k).minBufferFill = (g.buffers k).minBufferFill)
    (ready : OutputsReady answers g') : OutputsReady answers g := by
  intro last atEnd i w port
  have present : g.blocks[g.blocks.length - 1]? = some last := by
    rw [← List.getLast?_eq_getElem?, atEnd]
  obtain ⟨last', present', bare⟩ := Group.SameTotals.block
    (g := { g with buffers := g'.buffers }) ⟨blocks, rfl⟩ present
  have length := congrArg List.length blocks
  rw [List.length_map, List.length_map] at length
  have atEnd' : g'.blocks.getLast? = some last' := by
    rw [List.getLast?_eq_getElem?, length, present']
  have bufp : (last'.outputs[i]?).map BlockWorkOutput.bufp = some w.bufp := by
    have both := congrArg (fun b : Block => (b.outputs[i]?).map BlockWorkOutput.bufp) bare
    simp only [Block.bare_outputs_getElem?, Option.map_map] at both
    rw [port, Option.map_some] at both
    exact both
  have multiple : last'.outputMultiple = last.outputMultiple := by
    have both := congrArg Block.outputMultiple bare
    exact both
  obtain ⟨w', here, same⟩ := Option.map_eq_some_iff.mp bufp
  have passes := ready last' atEnd' i w' here
  unfold outputReady at passes ⊢
  rw [same, multiple] at passes
  cases attached : w.bufp with
  | none => rfl
  | some k =>
      have writes : g.outputBuffer (g.blocks.length - 1) i = some k := by
        rw [Group.outputBuffer, Group.output, present, Option.bind_some, port, Option.bind_some,
          attached]
      obtain ⟨space, most, least⟩ := room i k writes
      have count : outputCount g' last.outputMultiple k = outputCount g last.outputMultiple k := by
        unfold outputCount outputRoom
        rw [space, most]
      simp only [attached, space, least, count] at passes ⊢
      exact passes

/-! ## Buffers at the ports -/

/-- What the check asks of a port with a reader. -/
theorem inputReady_eq_true (attached : w.bufp = some r) :
    inputReady g answer w = true ↔ answer = true ∧ 0 < g.itemsAvailable r ∧
      (0 < r.minBufferRead → intOfSize r.minBufferRead ≤ g.itemsAvailable r) := by
  unfold inputReady
  simp only [attached, Bool.and_eq_true, Bool.not_eq_true', Bool.or_eq_false_iff,
    Bool.and_eq_false_iff, decide_eq_false_iff_not]
  refine and_congr_right fun _ => and_congr ?_ ?_
  · unfold sMinItemsToProcess
    omega
  · omega

private theorem suits_of_inputReady (attached : w.bufp = some r)
    (held : g.itemsAvailable r ≤ (g.buffers r.source).bufSize)
    (ready : inputReady g answer w = true) : r.Suits (g.buffers r.source).bufSize := by
  obtain ⟨_, some, least⟩ := (inputReady_eq_true attached).mp ready
  refine ⟨Nat.lt_of_lt_of_le some held, fun limited => ?_⟩
  have enough := least limited
  omega

/-- A full buffer satisfies every reader whose limits suit its size. -/
theorem inputReady_of_suits (attached : w.bufp = some r)
    (full : g.itemsAvailable r = (g.buffers r.source).bufSize)
    (suits : r.Suits (g.buffers r.source).bufSize) : inputReady g true w = true := by
  rw [inputReady_eq_true attached, full]
  exact ⟨rfl, suits⟩

private theorem suits_of_outputReady (buffered : v.bufp = some k)
    (ready : outputReady g multiple answer v = .ok true) : (g.buffers k).Suits multiple := by
  obtain ⟨_, minFill, positive⟩ := (outputReady_eq_true buffered).mp ready
  have fits := outputCount_fits positive
  have within : g.spaceAvailable k ≤ (g.buffers k).bufSize := Nat.sub_le _ _
  exact ⟨Nat.le_trans minFill within, _, positive, Nat.le_trans fits.space within,
    outputCount_le_intMax _ _ _, fits.maxFill, dvd_outputCount _ _ _⟩

/-- An empty buffer satisfies every block whose multiple suits its limits. -/
theorem outputReady_of_suits (buffered : v.bufp = some k)
    (empty : g.spaceAvailable k = (g.buffers k).bufSize) (suits : (g.buffers k).Suits multiple) :
    outputReady g multiple true v = .ok true := by
  obtain ⟨minFill, count, positive, space, int, maxFill, divides⟩ := suits
  rw [outputReady_eq_true buffered, empty]
  exact ⟨rfl, minFill, Nat.lt_of_lt_of_le positive
    (le_outputCount ⟨positive, empty ▸ space, maxFill⟩ divides int)⟩

/-- Limits that can be met within the buffer suit its size. -/
theorem sizedInputs_of_ready
    (held : ∀ i r, g.reader 0 i = some r → g.itemsAvailable r ≤ (g.buffers r.source).bufSize)
    (ready : InputsReady answers g) : g.SizedInputs := by
  intro i r reads
  obtain ⟨w, port, attached⟩ := Option.bind_eq_some_iff.mp reads
  exact suits_of_inputReady attached (held i r reads) (ready i w port)

/-- A check that has passed shows that the limits suit the size. -/
theorem sizedOutputs_of_ready (ready : OutputsReady answers g) : g.SizedOutputs := by
  intro last atEnd k writes
  obtain ⟨v, listed, buffered⟩ := List.mem_filterMap.mp writes
  obtain ⟨i, port⟩ := List.mem_iff_getElem?.mp listed
  exact suits_of_outputReady buffered (ready last atEnd i v port)

/-! ## What no phase changes -/

/-- Two groups whose checks make the same demands. -/
structure SameDemands (g g' : Group) : Prop where
  wiring : SameWiring g g'
  wires : g'.blocks.map Block.wires = g.blocks.map Block.wires
  multiples : g'.blocks.map Block.outputMultiple = g.blocks.map Block.outputMultiple
  limits : ∀ k, (g'.buffers k).bufSize = (g.buffers k).bufSize ∧
    (g'.buffers k).maxBufferFill = (g.buffers k).maxBufferFill ∧
    (g'.buffers k).minBufferFill = (g.buffers k).minBufferFill

/-- A group asks for what it asks for. -/
theorem SameDemands.refl (g : Group) : SameDemands g g :=
  ⟨fun _ _ => rfl, rfl, rfl, fun _ => ⟨rfl, rfl, rfl⟩⟩

/-- The limits of the readers suit after if they suit before. -/
theorem SameDemands.sizedInputs (same : SameDemands g g') (sized : g'.SizedInputs) :
    g.SizedInputs := by
  intro i r reads
  have both := same.wiring 0 i
  rw [reads, Option.map_some] at both
  obtain ⟨r', reads', here⟩ := Option.map_eq_some_iff.mp both
  obtain ⟨source, _, _, least⟩ := BufferReader.mk.inj here
  have suits := sized i r' reads'
  rw [(same.limits r'.source).1, source] at suits
  unfold BufferReader.Suits at suits ⊢
  rwa [least] at suits

/-- The limits of the buffers suit after if they suit before. -/
theorem SameDemands.sizedOutputs (same : SameDemands g g') (sized : g'.SizedOutputs) :
    g.SizedOutputs := by
  intro last atEnd k writes
  have wires := congrArg List.getLast? same.wires
  have multiples := congrArg List.getLast? same.multiples
  rw [List.getLast?_map, List.getLast?_map, atEnd, Option.map_some] at wires multiples
  obtain ⟨last', atEnd', multiple⟩ := Option.map_eq_some_iff.mp multiples
  rw [atEnd', Option.map_some, Option.some.injEq] at wires
  have suits := sized last' atEnd' k (by rwa [Block.writes_eq, wires, ← Block.writes_eq])
  obtain ⟨size, most, least⟩ := same.limits k
  rw [multiple] at suits
  obtain ⟨minFill, count, positive, space, int, maxFill, divides⟩ := suits
  rw [size] at minFill space
  rw [least] at minFill
  rw [most] at maxFill
  exact ⟨minFill, count, positive, space, int, maxFill, divides⟩

private theorem multiples_of_sameTotals (same : g.SameTotals g') :
    g'.blocks.map Block.outputMultiple = g.blocks.map Block.outputMultiple := by
  have both := congrArg (List.map Block.outputMultiple) same.blocks
  rw [List.map_map, List.map_map] at both
  exact both

/-- No phase changes the output multiple of a block. -/
theorem multiples_of_resume (resumes : resume answers g point = .ok (g', point')) :
    g'.blocks.map Block.outputMultiple = g.blocks.map Block.outputMultiple := by
  cases point with
  | start =>
      obtain ⟨ready, checks, _⟩ := point_of_start resumes
      exact multiples_of_sameTotals (checkFirst_eq_ok checks).1
  | inputsChecked =>
      obtain ⟨⟨checked, ready⟩, checks, ends⟩ := Except.bind_eq_ok resumes
      have same := multiples_of_sameTotals (checkLast_eq_ok (Except.mapError_eq_ok checks)).1
      cases ready with
      | true => cases ends; exact same
      | false =>
          obtain ⟨events, _, ends⟩ := Except.bind_eq_ok ends
          cases ends
          exact same
  | outputsChecked =>
      obtain ⟨⟨blocks, l⟩, runs, ends⟩ := Except.bind_eq_ok resumes
      cases ends
      apply List.ext_getElem?
      intro p
      rw [workLoop_blocks runs, answers.served_nil_left, List.getElem?_map, List.getElem?_map,
        List.getElem?_mapIdx, Option.map_map]
      congr 1
      funext b
      rcases answers.serve_cases g.blocks.length p b with same | ⟨r, _, same⟩
      · exact congrArg Block.outputMultiple same
      · exact (congrArg Block.outputMultiple same).trans rfl
  | worked l =>
      obtain ⟨⟨posted, events⟩, releases, ends⟩ := Except.bind_eq_ok resumes
      cases ends
      obtain ⟨_, _, releases⟩ := Except.bind_eq_ok releases
      cases releases
      exact List.map_map
  | released l =>
      obtain ⟨⟨posted, events⟩, publishes, ends⟩ := Except.bind_eq_ok resumes
      cases ends
      obtain ⟨_, _, publishes⟩ := Except.bind_eq_ok publishes
      cases publishes
      rfl
  | published l =>
      obtain ⟨events, _, ends⟩ := Except.bind_eq_ok resumes
      cases ends
      rfl
  | returned status events =>
      cases resumes
      rfl

/-- Which check a phase has made. -/
theorem checked_of_resume (resumes : resume answers g point = .ok (g', point')) :
    (point' = .inputsChecked → point = .start ∧ InputsReady answers g) ∧
      (point' = .outputsChecked → point = .inputsChecked ∧ OutputsReady answers g) := by
  cases point with
  | start =>
      obtain ⟨ready, checks, rfl⟩ := point_of_start resumes
      cases ready with
      | true => exact ⟨fun _ => ⟨rfl, (checkFirst_passes_iff checks).mp rfl⟩, Point.noConfusion⟩
      | false => exact ⟨Point.noConfusion, Point.noConfusion⟩
  | inputsChecked =>
      obtain ⟨⟨checked, ready⟩, checks, ends⟩ := Except.bind_eq_ok resumes
      cases ready with
      | true =>
          cases ends
          exact ⟨Point.noConfusion, fun _ =>
            ⟨rfl, (checkLast_passes_iff (Except.mapError_eq_ok checks)).mp rfl⟩⟩
      | false =>
          obtain ⟨events, _, ends⟩ := Except.bind_eq_ok ends
          cases ends
          exact ⟨Point.noConfusion, Point.noConfusion⟩
  | outputsChecked | worked l | released l | published l =>
      obtain ⟨_, _, ends⟩ := Except.bind_eq_ok resumes
      cases ends
      exact ⟨Point.noConfusion, Point.noConfusion⟩
  | returned status events =>
      cases resumes
      exact ⟨Point.noConfusion, Point.noConfusion⟩

/-- The demands stay the same from step to step. -/
theorem SameDemands.trans {g'' : Group} (first : SameDemands g g') (second : SameDemands g' g'') :
    SameDemands g g'' := by
  refine ⟨fun p i => (second.wiring p i).trans (first.wiring p i),
    second.wires.trans first.wires, second.multiples.trans first.multiples, fun k => ?_⟩
  obtain ⟨size, most, least⟩ := first.limits k
  obtain ⟨size', most', least'⟩ := second.limits k
  exact ⟨size'.trans size, most'.trans most, least'.trans least⟩

end GraphExecutor

end TorchDsp
