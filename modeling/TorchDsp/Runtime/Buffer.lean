import Mathlib.Algebra.Group.Int.Defs
import Mathlib.Algebra.Group.Nat.Defs
import Mathlib.Data.Int.Init

/-! # The runtime interface of the scheduler

The blocks, ports and buffers handed to the executor. A buffer is a FIFO: its
writer counts the items it has published, each of its readers the items it has
released, and the capacity bounds the items that some reader has not released
yet. Readers inside the group belong to the input port that owns them; those of
other schedulers are recorded by their totals only.
-/

namespace TorchDsp

/-- The result of a `do_work` call. The scheduler tells four results apart;
`other` stands for every further code. -/
inductive WorkReturn
  | ok
  | done
  | insufficientInputItems
  | insufficientOutputItems
  | other (code : Int)
  deriving DecidableEq, Repr

/-- The result of one iteration of the executor. -/
inductive ExecutorIterationStatus
  | ready
  | readyNoOutput
  | done
  | blkdIn
  | blkdOut
  | msgOnly
  deriving DecidableEq, Repr

/-- The actions that schedulers ask of each other. -/
inductive SchedulerAction
  | signalDone
  | done
  | exit
  | notifyOutput
  | notifyInput
  | notifyAll
  | other
  deriving DecidableEq, Repr

/-! ## Machine integers -/

/-- The largest `int`. -/
def intMax : Nat := 2 ^ 31 - 1

/-- The conversion of a `size_t` to `int`. -/
def intOfSize (value : Nat) : Int := Int.bmod value (2 ^ 32)

/-- The conversion of an `int` to `size_t`. -/
def sizeOfInt (value : Int) : Nat := (value % 2 ^ 64).toNat

/-- Values that fit an `int` survive the conversion. -/
theorem intOfSize_of_le {value : Nat} (fits : value ≤ intMax) : intOfSize value = value := by
  unfold intOfSize intMax at *
  rw [Int.bmod_eq_of_le] <;> omega

/-- Counts that an int holds are converted unchanged. -/
theorem sizeOfInt_of_le {value : Nat} (fits : value ≤ intMax) : sizeOfInt value = value := by
  unfold sizeOfInt intMax at *
  omega

/-- A conversion to int does not exceed the largest one. -/
theorem intOfSize_le_intMax (value : Nat) : intOfSize value ≤ intMax := by
  have below : Int.bmod value (2 ^ 32) < (((2 ^ 32 : Nat) : Int) + 1) / 2 :=
    Int.bmod_lt (by decide)
  unfold intOfSize intMax
  omega

/-! ## Buffers and ports -/

/-- A reader of a buffer, owned by the input port it feeds. -/
structure BufferReader where
  /-- The buffer that is read. -/
  source : Nat
  totalRead : Nat
  maxBufferRead : Nat := 0
  minBufferRead : Nat := 0
  deriving DecidableEq, Repr

structure Buffer where
  bufSize : Nat
  totalWritten : Nat
  maxBufferFill : Nat := 0
  minBufferFill : Nat := 0
  /-- The totals of the readers outside the group. -/
  outsideReads : List Nat := []
  deriving DecidableEq, Repr

structure BlockWorkInput where
  bufp : Option BufferReader
  nItems : Nat := 0
  nConsumed : Nat := 0
  deriving DecidableEq, Repr

structure BlockWorkOutput where
  bufp : Option Nat
  nItems : Nat := 0
  nProduced : Nat := 0
  deriving DecidableEq, Repr

/-- What the executor can find out about the class of a block. -/
inductive BlockKind
  /-- A `triton_block`, with the mode of its model. -/
  | triton (async : Bool)
  /-- Another implementation of `async_block_interface`. -/
  | asyncBlock
  | plain
  deriving DecidableEq, Repr

structure Block where
  kind : BlockKind
  isHier : Bool := false
  /-- `output_multiple()`, where `output_multiple_set()` holds. -/
  outputMultiple : Option Nat := none
  inputs : List BlockWorkInput
  outputs : List BlockWorkOutput
  deriving DecidableEq, Repr

/-- Whether the cast to `async_block_interface` succeeds. -/
def Block.isAsyncBlock (b : Block) : Bool :=
  match b.kind with
  | .triton _ => true
  | .asyncBlock => true
  | .plain => false

/-- The blocks of one worker, each listed once, and the buffers they use. -/
structure Group where
  blocks : List Block
  buffers : Nat → Buffer

namespace Group

/-- `items_available()`: the published items that the reader has not released. -/
def itemsAvailable (g : Group) (r : BufferReader) : Nat :=
  (g.buffers r.source).totalWritten - r.totalRead

/-- The totals of all readers of a buffer. -/
def readsOf (g : Group) (k : Nat) : List Nat :=
  ((g.blocks.flatMap Block.inputs).filterMap fun w => w.bufp.bind fun r =>
    if r.source = k then some r.totalRead else none) ++ (g.buffers k).outsideReads

/-- `space_available()`: the capacity less the items that the slowest reader has
not released. -/
def spaceAvailable (g : Group) (k : Nat) : Nat :=
  (g.buffers k).bufSize -
    ((g.buffers k).totalWritten - (g.readsOf k).foldr min (g.buffers k).totalWritten)

/-- The input port `i` of the block at position `p`. -/
def input (g : Group) (p i : Nat) : Option BlockWorkInput :=
  g.blocks[p]?.bind fun b => b.inputs[i]?

/-- The output port `i` of the block at position `p`. -/
def output (g : Group) (p i : Nat) : Option BlockWorkOutput :=
  g.blocks[p]?.bind fun b => b.outputs[i]?

/-- The reader of the input port `i` of the block at position `p`. -/
def reader (g : Group) (p i : Nat) : Option BufferReader :=
  (g.input p i).bind BlockWorkInput.bufp

/-- The buffer of the output port `i` of the block at position `p`. -/
def outputBuffer (g : Group) (p i : Nat) : Option Nat :=
  (g.output p i).bind BlockWorkOutput.bufp

/-- The reader of an input port. -/
theorem reader_eq_bind (g : Group) (p i : Nat) :
    g.reader p i = ((g.input p i).map BlockWorkInput.bufp).bind id := by
  rw [reader, Option.bind_map, Function.id_comp]

/-- The buffer of an output port. -/
theorem outputBuffer_eq_bind (g : Group) (p i : Nat) :
    g.outputBuffer p i = ((g.output p i).map BlockWorkOutput.bufp).bind id := by
  rw [outputBuffer, Option.bind_map, Function.id_comp]

end Group

end TorchDsp
