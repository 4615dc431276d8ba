import TorchDsp.Runtime.Buffer

/-! # The readiness checks of an iteration

Before it runs any block, `run_one_iteration` walks over the input ports of the
first block and the output ports of the last one, asks every buffer how many
items it holds or has room for, and stores the negotiated count in the port. The
walk stops at the first port that is not ready.
-/

namespace TorchDsp

/-- Why an iteration does not return. -/
inductive Cause
  /-- The list of blocks to run over is empty. -/
  | noBlock
  /-- `inputs()[0]` of a block without input ports. -/
  | noInputPort
  /-- `outputs()[0]` of a block without output ports. -/
  | noOutputPort
  /-- A blocked callback on a port without buffer. -/
  | noBuffer
  /-- The last block does not implement `async_block_interface`. -/
  | notAsync
  /-- `round_down` to a multiple that is zero as an `unsigned int`. -/
  | divisionByZero
  /-- No further result of `do_work` ends the inner loop. -/
  | spinning
  /-- The callback of the last block is never made. -/
  | waiting
  deriving DecidableEq, Repr

namespace GraphExecutor

def sMinItemsToProcess : Nat := 1

def sMinBufItems : Nat := 1

/-- `round_down`, whose parameters are `unsigned int`. -/
def roundDown (n multiple : Nat) : Nat :=
  n % 2 ^ 32 / (multiple % 2 ^ 32) * (multiple % 2 ^ 32)

/-- Rounding down to a multiple does not go up. -/
theorem roundDown_le (n multiple : Nat) : roundDown n multiple ≤ n :=
  Nat.le_trans (Nat.div_mul_le_self _ _) (Nat.mod_le _ _)

/-! ## Input ports -/

/-- The count that the check places on a ready input port. -/
def inputCount (g : Group) (r : BufferReader) : Nat :=
  let n : Int := g.itemsAvailable r
  sizeOfInt (if 0 < r.maxBufferRead ∧ n > intOfSize r.maxBufferRead then
    intOfSize r.maxBufferRead else n)

/-- An input port after its check has passed. -/
def negotiateInput (g : Group) (w : BlockWorkInput) : BlockWorkInput :=
  match w.bufp with
  | none => w
  | some r => { w with nItems := inputCount g r }

/-- Whether the check of one input port passes; `answer` is what `read_info`
returns. -/
def inputReady (g : Group) (answer : Bool) (w : BlockWorkInput) : Bool :=
  match w.bufp with
  | none => true
  | some r =>
      let n : Int := g.itemsAvailable r
      answer && !(n < sMinItemsToProcess || (0 < r.minBufferRead && n < intOfSize r.minBufferRead))

/-- The input check loop from port `i` on: the ports as it leaves them and
whether all of them are ready. -/
def checkInputs (g : Group) (readInfo : Nat → Bool) :
    Nat → List BlockWorkInput → List BlockWorkInput × Bool
  | _, [] => ([], true)
  | i, w :: rest =>
      if inputReady g (readInfo i) w then
        let (rest, ready) := checkInputs g readInfo (i + 1) rest
        (negotiateInput g w :: rest, ready)
      else (w :: rest, false)

/-- The input check leaves the reader of a port. -/
@[simp] theorem negotiateInput_bufp (g : Group) (w : BlockWorkInput) :
    (negotiateInput g w).bufp = w.bufp := by
  unfold negotiateInput
  split <;> simp_all

/-- The input check leaves what the port has consumed. -/
@[simp] theorem negotiateInput_nConsumed (g : Group) (w : BlockWorkInput) :
    (negotiateInput g w).nConsumed = w.nConsumed := by
  unfold negotiateInput
  split <;> rfl

/-- When the check passes, every port carries its negotiated count. -/
theorem checkInputs_ready (g : Group) (readInfo : Nat → Bool) (i : Nat) (ws : List BlockWorkInput)
    (ready : (checkInputs g readInfo i ws).2 = true) :
    (checkInputs g readInfo i ws).1 = ws.map (negotiateInput g) := by
  induction ws generalizing i with
  | nil => rfl
  | cons w rest ih =>
      unfold checkInputs at ready ⊢
      by_cases passes : inputReady g (readInfo i) w = true
      · rw [if_pos passes] at ready ⊢
        rw [List.map_cons]
        exact congrArg _ (ih (i + 1) ready)
      · rw [if_neg passes] at ready
        exact (Bool.false_ne_true ready).elim

/-- The check never changes which reader a port has or what it consumed last. -/
theorem checkInputs_keeps (g : Group) (readInfo : Nat → Bool) (i : Nat) (ws : List BlockWorkInput) :
    (checkInputs g readInfo i ws).1.map (fun w => (w.bufp, w.nConsumed)) =
      ws.map fun w => (w.bufp, w.nConsumed) := by
  induction ws generalizing i with
  | nil => rfl
  | cons w rest ih =>
      unfold checkInputs
      split
      · rw [List.map_cons, List.map_cons, negotiateInput_bufp, negotiateInput_nConsumed]
        exact congrArg _ (ih (i + 1))
      · rfl

/-! ## Output ports -/

/-- The room for an output port before rounding. -/
def outputRoom (g : Group) (k : Nat) : Nat :=
  let space := if g.spaceAvailable k < intMax then g.spaceAvailable k else intMax
  if 0 < (g.buffers k).maxBufferFill ∧ space > (g.buffers k).maxBufferFill then
    (g.buffers k).maxBufferFill else space

/-- The count that the check places on a ready output port. -/
def outputCount (g : Group) (multiple : Option Nat) (k : Nat) : Nat :=
  match multiple with
  | none => outputRoom g k
  | some m => roundDown (outputRoom g k) m

/-- An output port after its check has passed. -/
def negotiateOutput (g : Group) (multiple : Option Nat) (w : BlockWorkOutput) : BlockWorkOutput :=
  match w.bufp with
  | none => w
  | some k => { w with nItems := outputCount g multiple k }

/-- Whether the check of one output port passes; `answer` is what `write_info`
returns. Rounding down to a zero multiple fails before the answer matters. -/
def outputReady (g : Group) (multiple : Option Nat) (answer : Bool) (w : BlockWorkOutput) :
    Except Cause Bool :=
  match w.bufp with
  | none => .ok true
  | some k =>
      let space := g.spaceAvailable k
      if space < sMinBufItems || (0 < (g.buffers k).minBufferFill &&
          space < (g.buffers k).minBufferFill) then
        .ok false
      else if multiple.any (· % 2 ^ 32 = 0) then .error .divisionByZero
      else .ok (answer && 0 < outputCount g multiple k)

/-- The output check loop from port `i` on: the ports as it leaves them and
whether all of them are ready. -/
def checkOutputs (g : Group) (multiple : Option Nat) (writeInfo : Nat → Bool) :
    Nat → List BlockWorkOutput → Except Cause (List BlockWorkOutput × Bool)
  | _, [] => .ok ([], true)
  | i, w :: rest => do
      if ← outputReady g multiple (writeInfo i) w then
        let (rest, ready) ← checkOutputs g multiple writeInfo (i + 1) rest
        return (negotiateOutput g multiple w :: rest, ready)
      else return (w :: rest, false)

/-- The output check leaves the buffer of a port. -/
@[simp] theorem negotiateOutput_bufp (g : Group) (multiple : Option Nat) (w : BlockWorkOutput) :
    (negotiateOutput g multiple w).bufp = w.bufp := by
  unfold negotiateOutput
  split <;> simp_all

/-- The output check leaves what the port has produced. -/
@[simp] theorem negotiateOutput_nProduced (g : Group) (multiple : Option Nat)
    (w : BlockWorkOutput) : (negotiateOutput g multiple w).nProduced = w.nProduced := by
  unfold negotiateOutput
  split <;> rfl

/-- What one pass of the output check loop can do. -/
theorem checkOutputs_cons {g : Group} {multiple : Option Nat} {writeInfo : Nat → Bool} {i : Nat}
    {w : BlockWorkOutput} {rest checked : List BlockWorkOutput} {ready : Bool}
    (checks : checkOutputs g multiple writeInfo i (w :: rest) = .ok (checked, ready)) :
    (outputReady g multiple (writeInfo i) w = .ok false ∧ checked = w :: rest ∧ ready = false) ∨
      outputReady g multiple (writeInfo i) w = .ok true ∧
        ∃ others, checkOutputs g multiple writeInfo (i + 1) rest = .ok (others, ready) ∧
          checked = negotiateOutput g multiple w :: others := by
  unfold checkOutputs at checks
  cases passes : outputReady g multiple (writeInfo i) w with
  | error cause =>
      rw [passes] at checks
      cases checks
  | ok answer =>
      rw [passes] at checks
      cases answer with
      | false =>
          cases checks
          exact Or.inl ⟨rfl, rfl, rfl⟩
      | true =>
          cases tail : checkOutputs g multiple writeInfo (i + 1) rest with
          | error cause =>
              simp only [tail, bind, Except.bind, ↓reduceIte] at checks
              cases checks
          | ok result =>
              simp only [tail, bind, Except.bind, ↓reduceIte, pure, Except.pure] at checks
              cases checks
              exact Or.inr ⟨rfl, result.1, rfl, rfl⟩

/-- When the check passes, every port carries its negotiated count. -/
theorem checkOutputs_ready {g : Group} {multiple : Option Nat} {writeInfo : Nat → Bool} {i : Nat}
    {ws checked : List BlockWorkOutput}
    (checks : checkOutputs g multiple writeInfo i ws = .ok (checked, true)) :
    checked = ws.map (negotiateOutput g multiple) := by
  induction ws generalizing i checked with
  | nil => cases checks; rfl
  | cons w rest ih =>
      rcases checkOutputs_cons checks with ⟨_, _, absurd⟩ | ⟨_, others, tail, rfl⟩
      · exact (Bool.false_ne_true absurd.symm).elim
      · rw [List.map_cons, ih tail]

/-- The check never changes which buffer a port has or what it produced last. -/
theorem checkOutputs_keeps {g : Group} {multiple : Option Nat} {writeInfo : Nat → Bool} {i : Nat}
    {ws checked : List BlockWorkOutput} {ready : Bool}
    (checks : checkOutputs g multiple writeInfo i ws = .ok (checked, ready)) :
    checked.map (fun w => (w.bufp, w.nProduced)) = ws.map fun w => (w.bufp, w.nProduced) := by
  induction ws generalizing i checked ready with
  | nil => cases checks; rfl
  | cons w rest ih =>
      rcases checkOutputs_cons checks with ⟨_, rfl, _⟩ | ⟨_, others, tail, rfl⟩
      · rfl
      · rw [List.map_cons, List.map_cons, ih tail, negotiateOutput_bufp,
          negotiateOutput_nProduced]

/-- Every count placed on an output port fits its buffer. -/
theorem outputCount_le_space (g : Group) (multiple : Option Nat) (k : Nat) :
    outputCount g multiple k ≤ g.spaceAvailable k := by
  have room : outputRoom g k ≤ g.spaceAvailable k := by
    unfold outputRoom
    grind
  cases multiple with
  | none => exact room
  | some m => exact Nat.le_trans (roundDown_le _ _) room

/-- Every count placed on an output port fits an `int`. -/
theorem outputCount_le_intMax (g : Group) (multiple : Option Nat) (k : Nat) :
    outputCount g multiple k ≤ intMax := by
  have room : outputRoom g k ≤ intMax := by
    unfold outputRoom
    grind
  cases multiple with
  | none => exact room
  | some m => exact Nat.le_trans (roundDown_le _ _) room

end GraphExecutor

end TorchDsp
