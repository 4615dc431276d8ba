import Mathlib.Order.Bounds.Defs
import TorchDsp.Executor.Steps

/-! # What the output check accepts

The output check compares the space of a buffer with the minimum fill before it
clips the count to the maximum fill and rounds it down to the output multiple.
It places the largest admissible count exactly when these two steps do not fall
below the minimum and the rounding does not divide by zero
(`TorchDsp.GraphExecutor.output_check_iff`).
-/

namespace TorchDsp

namespace GraphExecutor

/-- A positive count within the space and the maximum fill of a buffer. -/
structure Fits (g : Group) (k n : Nat) : Prop where
  positive : 0 < n
  space : n ≤ g.spaceAvailable k
  maxFill : 0 < (g.buffers k).maxBufferFill → n ≤ (g.buffers k).maxBufferFill

/-- A count that obeys every limit of a buffer and is a multiple of `m`. -/
structure Admissible (g : Group) (m k n : Nat) : Prop extends Fits g k n where
  multiple : m ∣ n
  minFill : 0 < (g.buffers k).minBufferFill → (g.buffers k).minBufferFill ≤ n

/-- The output check returns, passes when some count is admissible, and then
places the largest one on the first output port of the last block. -/
structure PlacesLargest (answers : Answers) (g : Group) (m k : Nat) : Prop where
  returns : ∃ result, checkLast answers g = .ok result
  passes : (∃ g', checkLast answers g = .ok (g', true)) ↔ ∃ n, Admissible g m k n
  largest : ∀ g', checkLast answers g = .ok (g', true) →
    ∃ w, g'.output (g.blocks.length - 1) 0 = some w ∧
      IsGreatest {n | Admissible g m k n} w.nItems

/-- An output multiple that is zero as an `unsigned int` is not rounded to, as the
space is below the smallest count or the minimum fill. Where some count is
admissible, `write_info` succeeds and all admissible counts are `int`s. Where none
is, `write_info` fails, the space is below the minimum fill, or no `int` that fits is
a multiple of the output multiple as an `unsigned int`. -/
structure LimitsAgree (answer : Bool) (g : Group) (m k : Nat) : Prop where
  rounds : m % 2 ^ 32 = 0 →
    g.spaceAvailable k < sMinBufItems ∨ g.spaceAvailable k < (g.buffers k).minBufferFill
  found : (∃ n, Admissible g m k n) → answer = true ∧ ∀ n, Admissible g m k n → n ≤ intMax
  missing : (¬ ∃ n, Admissible g m k n) → answer = true →
    (g.buffers k).minBufferFill ≤ g.spaceAvailable k →
      ∀ n, Fits g k n → m % 2 ^ 32 ∣ n → intMax < n

/-! ## Rounding -/

private theorem dvd_roundDown (n m : Nat) : m % 2 ^ 32 ∣ roundDown n m :=
  Nat.dvd_mul_left _ _

/-- No multiple in between is larger. -/
theorem le_roundDown {n room m : Nat} (divides : m % 2 ^ 32 ∣ n) (below : n ≤ room)
    (fits : room ≤ intMax) : n ≤ roundDown room m := by
  obtain ⟨count, rfl⟩ := divides
  unfold roundDown
  unfold intMax at fits
  rw [Nat.mod_eq_of_lt (show room < 2 ^ 32 by omega), Nat.mul_comm]
  rcases Nat.eq_zero_or_pos (m % 2 ^ 32) with zero | positive
  · rw [zero, Nat.mul_zero]
    exact Nat.zero_le _
  · apply Nat.mul_le_mul_right
    apply (Nat.le_div_iff_mul_le positive).mpr
    rwa [Nat.mul_comm]

private theorem roundDown_one {n : Nat} (fits : n ≤ intMax) : roundDown n 1 = n := by
  have unit : 1 % 2 ^ 32 = 1 := rfl
  unfold roundDown
  unfold intMax at fits
  rw [unit, Nat.div_one, Nat.mul_one]
  exact Nat.mod_eq_of_lt (by omega)

/-! ## One output port -/

/-- The room is the least of the space, the largest int and the maximum fill, if any. -/
theorem le_outputRoom_iff {g : Group} {k n : Nat} : n ≤ outputRoom g k ↔
    n ≤ g.spaceAvailable k ∧ n ≤ intMax ∧
      (0 < (g.buffers k).maxBufferFill → n ≤ (g.buffers k).maxBufferFill) := by
  unfold outputRoom
  grind

/-- The room is computed as an int. -/
theorem outputRoom_le_intMax (g : Group) (k : Nat) : outputRoom g k ≤ intMax :=
  (le_outputRoom_iff.mp (Nat.le_refl _)).2.1

/-- A block without an output multiple has the multiple one. -/
theorem outputCount_eq_roundDown (g : Group) (multiple : Option Nat) (k : Nat) :
    outputCount g multiple k = roundDown (outputRoom g k) (multiple.getD 1) := by
  cases multiple with
  | none => exact (roundDown_one (outputRoom_le_intMax g k)).symm
  | some m => rfl

/-- A positive count that a port is offered fits its buffer. -/
theorem outputCount_fits {g : Group} {multiple : Option Nat} {k : Nat}
    (positive : 0 < outputCount g multiple k) : Fits g k (outputCount g multiple k) := by
  have below : outputCount g multiple k ≤ outputRoom g k := by
    rw [outputCount_eq_roundDown]
    exact roundDown_le _ _
  obtain ⟨space, _, maxFill⟩ := le_outputRoom_iff.mp below
  exact ⟨positive, space, maxFill⟩

/-- A port is offered whole multiples. -/
theorem dvd_outputCount (g : Group) (multiple : Option Nat) (k : Nat) :
    multiple.getD 1 % 2 ^ 32 ∣ outputCount g multiple k := by
  rw [outputCount_eq_roundDown]
  exact dvd_roundDown _ _

/-- No whole multiple that fits is larger than what a port is offered. -/
theorem le_outputCount {g : Group} {multiple : Option Nat} {k n : Nat} (fits : Fits g k n)
    (divides : multiple.getD 1 % 2 ^ 32 ∣ n) (int : n ≤ intMax) :
    n ≤ outputCount g multiple k := by
  rw [outputCount_eq_roundDown]
  apply le_roundDown divides _ (outputRoom_le_intMax g k)
  exact le_outputRoom_iff.mpr ⟨fits.space, int, fits.maxFill⟩

/-- Rounding to a multiple that is zero as an `unsigned int` is undefined. -/
theorem multiple_vanishes_iff {multiple : Option Nat} :
    multiple.any (· % 2 ^ 32 = 0) = true ↔ multiple.getD 1 % 2 ^ 32 = 0 := by
  cases multiple <;> simp

/-- What the check asks of a port with a buffer. -/
theorem outputReady_eq_true {g : Group} {multiple : Option Nat} {answer : Bool}
    {w : BlockWorkOutput} {k : Nat} (buffered : w.bufp = some k) :
    outputReady g multiple answer w = .ok true ↔
      answer = true ∧ (g.buffers k).minBufferFill ≤ g.spaceAvailable k ∧
        0 < outputCount g multiple k := by
  unfold outputReady
  simp only [buffered]
  by_cases short : g.spaceAvailable k < 1 ∨ (g.buffers k).minBufferFill > g.spaceAvailable k
  · have rejects : (g.spaceAvailable k < sMinBufItems || (0 < (g.buffers k).minBufferFill &&
        g.spaceAvailable k < (g.buffers k).minBufferFill) : Bool) = true := by
      simp only [Bool.or_eq_true, Bool.and_eq_true, decide_eq_true_eq]
      unfold sMinBufItems
      omega
    rw [if_pos rejects]
    constructor
    · intro absurd
      cases absurd
    · rintro ⟨_, minFill, positive⟩
      have space := (outputCount_fits positive).space
      omega
  · have keeps : (g.spaceAvailable k < sMinBufItems || (0 < (g.buffers k).minBufferFill &&
        g.spaceAvailable k < (g.buffers k).minBufferFill) : Bool) = false := by
      simp only [Bool.or_eq_false_iff, Bool.and_eq_false_iff, decide_eq_false_iff_not]
      unfold sMinBufItems
      omega
    have minFill : (g.buffers k).minBufferFill ≤ g.spaceAvailable k := by omega
    rw [if_neg (Bool.eq_false_iff.mp keeps)]
    by_cases zero : multiple.any (· % 2 ^ 32 = 0) = true
    · rw [if_pos zero]
      constructor
      · intro absurd
        cases absurd
      · rintro ⟨_, _, positive⟩
        have divides := dvd_outputCount g multiple k
        rw [multiple_vanishes_iff.mp zero] at divides
        have none := Nat.eq_zero_of_zero_dvd divides
        omega
    · rw [if_neg zero]
      simp [minFill]

/-- The check of a port with a buffer fails exactly where it rounds to zero. -/
theorem outputReady_returns_iff {g : Group} {multiple : Option Nat} {answer : Bool}
    {w : BlockWorkOutput} {k : Nat} (buffered : w.bufp = some k) :
    (∃ passes, outputReady g multiple answer w = .ok passes) ↔
      (multiple.getD 1 % 2 ^ 32 = 0 → g.spaceAvailable k < sMinBufItems ∨
        g.spaceAvailable k < (g.buffers k).minBufferFill) := by
  unfold outputReady
  simp only [buffered]
  by_cases short : (g.spaceAvailable k < sMinBufItems || (0 < (g.buffers k).minBufferFill &&
      g.spaceAvailable k < (g.buffers k).minBufferFill) : Bool) = true
  · rw [if_pos short]
    simp only [Bool.or_eq_true, Bool.and_eq_true, decide_eq_true_eq] at short
    exact iff_of_true ⟨false, rfl⟩ fun _ => short.imp_right And.right
  · rw [if_neg short]
    simp only [Bool.or_eq_true, Bool.and_eq_true, decide_eq_true_eq, not_or, not_and] at short
    by_cases zero : multiple.any (· % 2 ^ 32 = 0) = true
    · rw [if_pos zero]
      refine iff_of_false (fun ⟨passes, absurd⟩ => by cases absurd) fun stops => ?_
      rcases stops (multiple_vanishes_iff.mp zero) with empty | below
      · exact short.1 empty
      · exact short.2 (Nat.zero_lt_of_lt below) below
    · rw [if_neg zero]
      exact iff_of_true ⟨_, rfl⟩ fun vanishes =>
        (zero (multiple_vanishes_iff.mpr vanishes)).elim

/-- The check of the outputs of a last block with one port returns when that of the port does. -/
theorem checkLast_returns_iff {answers : Answers} {g : Group} {last : Block} {w : BlockWorkOutput}
    (atEnd : g.blocks.getLast? = some last) (port : last.outputs = [w]) :
    (∃ result, checkLast answers g = .ok result) ↔
      ∃ passes, outputReady g last.outputMultiple (answers.writeInfo 0) w = .ok passes := by
  unfold checkLast
  simp only [atEnd, port, checkOutputs]
  cases outputReady g last.outputMultiple (answers.writeInfo 0) w with
  | error cause => simp [bind, Except.bind]
  | ok passes => cases passes <;> simp [bind, Except.bind, pure, Except.pure]

private theorem checkLast_single {answers : Answers} {g : Group} {last : Block}
    {w : BlockWorkOutput} (atEnd : g.blocks.getLast? = some last) (port : last.outputs = [w]) :
    (∃ g', checkLast answers g = .ok (g', true)) ↔
      outputReady g last.outputMultiple (answers.writeInfo 0) w = .ok true := by
  unfold checkLast
  simp only [atEnd, port, checkOutputs]
  cases outputReady g last.outputMultiple (answers.writeInfo 0) w with
  | error cause => simp [bind, Except.bind]
  | ok passes => cases passes <;> simp [bind, Except.bind, pure, Except.pure]

/-- A passing check leaves its count in the port. -/
theorem output_of_checkLast {answers : Answers} {g g' : Group} {last : Block}
    {w : BlockWorkOutput} {k : Nat} (atEnd : g.blocks.getLast? = some last)
    (port : last.outputs = [w]) (buffered : w.bufp = some k)
    (checks : checkLast answers g = .ok (g', true)) :
    ∃ w', g'.output (g.blocks.length - 1) 0 = some w' ∧
      w'.nItems = outputCount g last.outputMultiple k := by
  obtain ⟨same, _, last', b, atEnd', tail, outputs⟩ := checkLast_eq_ok checks
  rw [atEnd] at atEnd'
  cases atEnd'
  refine ⟨negotiateOutput g last.outputMultiple w, ?_, ?_⟩
  · rw [Group.output, ← same.length_eq, ← List.getLast?_eq_getElem?, tail, Option.bind_some,
      outputs rfl, port]
    rfl
  · unfold negotiateOutput
    rw [buffered]

/-- Admissible counts that an int holds have a greatest one, which is the one offered. -/
private theorem isGreatest_admissible {g : Group} {multiple : Option Nat} {k : Nat}
    (some_admissible : ∃ n, Admissible g (multiple.getD 1) k n)
    (ints : ∀ n, Admissible g (multiple.getD 1) k n → n ≤ intMax) :
    IsGreatest {n | Admissible g (multiple.getD 1) k n} (outputCount g multiple k) := by
  obtain ⟨n, admissible⟩ := some_admissible
  -- The multiple is an `unsigned int`, as it divides an `int`.
  have small : multiple.getD 1 % 2 ^ 32 = multiple.getD 1 := by
    have bound := Nat.le_of_dvd admissible.positive admissible.multiple
    have int := ints n admissible
    unfold intMax at int
    exact Nat.mod_eq_of_lt (by omega)
  have above (n : Nat) (admissible : Admissible g (multiple.getD 1) k n) :
      n ≤ outputCount g multiple k := by
    apply le_outputCount admissible.toFits _ (ints n admissible)
    rw [small]
    exact admissible.multiple
  have some_placed := Nat.lt_of_lt_of_le admissible.positive (above n admissible)
  refine ⟨⟨outputCount_fits some_placed, ?_, fun set => ?_⟩, above⟩
  · exact small ▸ dvd_outputCount g multiple k
  · exact Nat.le_trans (admissible.minFill set) (above n admissible)

/-- **When the output check places the largest admissible count.** -/
theorem output_check_iff (answers : Answers) (g : Group) (last : Block) (w : BlockWorkOutput)
    (k m : Nat) (atEnd : g.blocks.getLast? = some last) (port : last.outputs = [w])
    (buffered : w.bufp = some k) (multiple : last.outputMultiple.getD 1 = m) (positive : 1 ≤ m) :
    PlacesLargest answers g m k ↔ LimitsAgree (answers.writeInfo 0) g m k := by
  subst multiple
  have passes := (@checkLast_single answers g last w atEnd port).trans
    (outputReady_eq_true buffered)
  have returns := (@checkLast_returns_iff answers g last w atEnd port).trans
    (outputReady_returns_iff buffered)
  constructor
  · rintro ⟨returned, complete, largest⟩
    refine ⟨returns.mp returned, fun found => ?_, fun missing answer minFill n fits divides => ?_⟩
    · have accepted := complete.mpr found
      refine ⟨(passes.mp accepted).1, fun n admissible => ?_⟩
      obtain ⟨g', checks⟩ := accepted
      obtain ⟨w', placed, greatest⟩ := largest g' checks
      obtain ⟨w'', placed', count⟩ := output_of_checkLast atEnd port buffered checks
      rw [placed] at placed'
      cases placed'
      exact Nat.le_trans (count ▸ greatest.2 admissible) (outputCount_le_intMax _ _ _)
    · by_contra int
      have below := le_outputCount fits divides (Nat.le_of_not_lt int)
      apply missing
      apply complete.mp
      exact passes.mpr ⟨answer, minFill, Nat.lt_of_lt_of_le fits.positive below⟩
  · rintro ⟨rounds, found, missing⟩
    have greatest (some_admissible : ∃ n, Admissible g (last.outputMultiple.getD 1) k n) :=
      isGreatest_admissible some_admissible (found some_admissible).2
    have sound (reaches : ∃ g', checkLast answers g = .ok (g', true)) :
        ∃ n, Admissible g (last.outputMultiple.getD 1) k n := by
      by_contra none
      obtain ⟨answer, minFill, some_placed⟩ := passes.mp reaches
      have large := missing none answer minFill _ (outputCount_fits some_placed)
        (dvd_outputCount g last.outputMultiple k)
      exact Nat.not_le_of_lt large (outputCount_le_intMax _ _ _)
    refine ⟨returns.mpr rounds, ⟨sound, fun some_admissible => ?_⟩, fun g' checks => ?_⟩
    · have placed := (greatest some_admissible).1
      have space := placed.space
      have minFill := placed.minFill
      exact passes.mpr ⟨(found some_admissible).1, by omega, placed.positive⟩
    · obtain ⟨w', placed, count⟩ := output_of_checkLast atEnd port buffered checks
      exact ⟨w', placed, count ▸ greatest (sound ⟨g', checks⟩)⟩

/-- A last block with one output port on a buffer with room for `space` items. -/
def oneOutput (multiple space minFill maxFill : Nat) : Group where
  blocks := [{ kind := .triton true, outputMultiple := some multiple
               inputs := [{ bufp := some ⟨0, 0, 0, 0⟩ }], outputs := [{ bufp := some 1 }] }]
  buffers := fun k => { bufSize := if k = 1 then space else 16
                        totalWritten := if k = 1 then 0 else 16
                        maxBufferFill := maxFill, minBufferFill := minFill }

/-- Of nine items at most eight and at least five, in batches of three, six are
placed. -/
theorem six_placed : PlacesLargest (moving 6) (oneOutput 3 9 5 8) 3 1 := by
  apply (output_check_iff (moving 6) (oneOutput 3 9 5 8) _ _ 1 3 rfl rfl rfl rfl (by decide)).mpr
  have within (n : Nat) (fits : Fits (oneOutput 3 9 5 8) 1 n) : n ≤ 9 := fits.space
  refine ⟨by decide, fun _ => ⟨rfl, fun n admissible => ?_⟩, fun none => ?_⟩
  · exact Nat.le_trans (within n admissible.toFits) (by decide)
  · exact (none ⟨6, ⟨by decide, by decide, fun _ => by decide⟩, by decide, fun _ => by decide⟩).elim

/-- Nine items are enough for a minimum of seven; five are placed, in batches of
five, and no multiple of five lies between seven and nine. -/
theorem below_minimum : ¬ PlacesLargest (moving 5) (oneOutput 5 9 7 0) 5 1 := by
  intro placed
  obtain ⟨n, ⟨⟨_, space, _⟩, multiple, minFill⟩⟩ := placed.passes.mp ⟨_, rfl⟩
  have above : 7 ≤ n := minFill (by decide)
  have below : n ≤ 9 := space
  omega

end GraphExecutor

end TorchDsp
