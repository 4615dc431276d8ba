import TorchDsp.Executor.Iteration

/-! # What the do_work loop does

A block leaves its inner loop with the first report that ends it, and nothing
of the earlier reports remains in its ports. When the loop over the blocks
returns, every block that takes part is left as its final report says.
-/

namespace TorchDsp

/-- Whether a report ends the inner loop of its block. -/
def WorkReport.leaves (isLast : Bool) (r : WorkReport) : Bool :=
  match r.ret with
  | .ok | .done => true
  | .insufficientInputItems | .insufficientOutputItems => isLast
  | .other _ => false

/-- The report with which the block at `position` of `count` blocks is left. -/
def Answers.final (answers : Answers) (count position : Nat) : Option WorkReport :=
  (answers.reports position).find? (WorkReport.leaves (position + 1 == count))

/-- The block at `position` of `count` blocks as the do_work loop leaves it. -/
def Answers.serve (answers : Answers) (count position : Nat) (b : Block) : Block :=
  if b.isHier then b else (answers.final count position).elim b b.report

namespace Block

variable {b : Block}

/-- The later report counts. -/
@[simp] theorem report_report (b : Block) (first second : WorkReport) :
    (b.report first).report second = b.report second := by
  unfold Block.report
  simp only [List.mapIdx_mapIdx]
  rfl

/-- A report overwrites the counts that were placed. -/
@[simp] theorem report_place (b : Block) (inItems outItems : Nat) (r : WorkReport) :
    (b.place inItems outItems).report r = b.report r := by
  unfold Block.report Block.place
  simp only [List.mapIdx_eq_zipIdx_map, List.zipIdx_map, List.map_map]
  rfl

/-- A report does not say whether a block takes part. -/
@[simp] theorem isHier_report (r : WorkReport) : (b.report r).isHier = b.isHier := rfl

/-- What a report says of an input. -/
theorem inputs_report_getElem? (r : WorkReport) (i : Nat) :
    (b.report r).inputs[i]? = b.inputs[i]?.map fun w =>
      { w with nItems := r.inputItems i, nConsumed := r.consumed i } :=
  List.getElem?_mapIdx

/-- What a report says of an output. -/
theorem outputs_report_getElem? (r : WorkReport) (i : Nat) :
    (b.report r).outputs[i]? = b.outputs[i]?.map fun w =>
      { w with nItems := r.outputItems i, nProduced := r.produced i } :=
  List.getElem?_mapIdx

/-- A work call changes no port's buffer. -/
@[simp] theorem writes_report (b : Block) (r : WorkReport) : (b.report r).writes = b.writes := by
  have buffers : (b.report r).outputs.map BlockWorkOutput.bufp =
      b.outputs.map BlockWorkOutput.bufp := by
    apply List.ext_getElem?
    intro i
    rw [List.getElem?_map, List.getElem?_map, outputs_report_getElem?, Option.map_map]
    rfl
  have both := congrArg (List.filterMap id) buffers
  rwa [List.filterMap_map, List.filterMap_map] at both

end Block

namespace Answers

variable (answers : Answers) (count position : Nat) (b : Block)

/-- A hierarchical block is passed over. -/
theorem serve_of_hier (hier : b.isHier = true) : answers.serve count position b = b := by
  unfold serve
  rw [if_pos hier]

/-- A block that takes part is left with its final report. -/
theorem serve_of_final {r : WorkReport} (served : b.isHier = false)
    (last : answers.final count position = some r) :
    answers.serve count position b = b.report r := by
  unfold serve
  rw [served, last]
  rfl

/-- A block is left alone or with its final report. -/
theorem serve_cases : answers.serve count position b = b ∨
    ∃ r, answers.final count position = some r ∧ answers.serve count position b = b.report r := by
  by_cases hier : b.isHier = true
  · exact Or.inl (answers.serve_of_hier count position b hier)
  · cases last : answers.final count position with
    | none =>
        left
        unfold serve
        rw [if_neg hier, last]
        rfl
    | some r =>
        exact Or.inr ⟨r, rfl, answers.serve_of_final count position b
          (Bool.eq_false_iff.mpr hier) last⟩

/-- Whether a block takes part does not change. -/
@[simp] theorem isHier_serve : (answers.serve count position b).isHier = b.isHier := by
  rcases answers.serve_cases count position b with same | ⟨r, _, same⟩
  · rw [same]
  · rw [same, Block.isHier_report]

/-- A block goes on writing the same buffers. -/
@[simp] theorem writes_serve : (answers.serve count position b).writes = b.writes := by
  rcases answers.serve_cases count position b with same | ⟨r, _, same⟩
  · rw [same]
  · rw [same, Block.writes_report]

/-- A block keeps its inputs. -/
theorem length_inputs_serve :
    (answers.serve count position b).inputs.length = b.inputs.length := by
  rcases answers.serve_cases count position b with same | ⟨r, _, same⟩
  · rw [same]
  · rw [same]
    exact List.length_mapIdx

/-- A block keeps its outputs. -/
theorem length_outputs_serve :
    (answers.serve count position b).outputs.length = b.outputs.length := by
  rcases answers.serve_cases count position b with same | ⟨r, _, same⟩
  · rw [same]
  · rw [same]
    exact List.length_mapIdx

/-- The blocks as the do_work loop over `todo` leaves them; `ran` are behind it. -/
def served (ran todo : List Block) : List Block :=
  ran ++ todo.mapIdx fun i b => answers.serve (ran.length + todo.length) (ran.length + i) b

/-- Serving the next block first changes nothing. -/
theorem served_cons (ran rest : List Block) (b : Block) :
    answers.served ran (b :: rest) =
      answers.served (ran ++ [answers.serve (ran.length + (b :: rest).length) ran.length b])
        rest := by
  unfold served
  rw [List.mapIdx_cons, Nat.add_zero, List.append_assoc]
  simp only [List.length_append, List.length_cons, List.length_nil, List.singleton_append,
    Nat.add_assoc, Nat.add_comm 1, Nat.zero_add]

/-- The chain as its blocks leave it when none has run. -/
theorem served_nil_left (todo : List Block) :
    answers.served [] todo = todo.mapIdx fun i b => answers.serve todo.length i b := by
  simp only [served, List.length_nil, Nat.zero_add, List.nil_append]

end Answers

namespace GraphExecutor

/-- The calls recorded by a loop. -/
abbrev loopEvents {α : Type} (result : Except Abort (α × Loop)) : List Event :=
  callsOf (fun ended => ended.2.events) result

/-- The calls of two parts in sequence are those of the first, when it fails,
and those of the second otherwise. -/
theorem mem_callsOf_bind {α β : Type} {events : β → List Event} {first : Except Abort α}
    {next : α → Except Abort β} {event : Event}
    (made : event ∈ callsOf events (first >>= next)) :
    (∃ abort, first = .error abort ∧ event ∈ abort.events) ∨
      ∃ value, first = .ok value ∧ event ∈ callsOf events (next value) := by
  cases first with
  | error abort => exact Or.inl ⟨abort, rfl, made⟩
  | ok value => exact Or.inr ⟨value, rfl, made⟩

/-- The calls of two parts in sequence are calls of the first, if those of the
second are. -/
theorem mem_callsOf_first {α β : Type} {events : β → List Event} {first : Except Abort α}
    {next : α → Except Abort β} {event : Event} {inner : α → List Event}
    (made : event ∈ callsOf events (first >>= next))
    (later : ∀ value, first = .ok value → event ∈ callsOf events (next value) →
      event ∈ inner value) : event ∈ callsOf inner first := by
  cases first with
  | error abort => exact made
  | ok value => exact later value rfl made

/-! ## One block -/

/-- How the variables of the iteration stand after a block is left with `r`. -/
def Loop.leave (l : Loop) (b : Block) (r : WorkReport) (events : List Event) : Loop :=
  match r.ret with
  | .ok | .done => { l with status := workStatus b r.ret, events }
  | .insufficientInputItems => { l with unclogInputs := true, status := .blkdIn, events }
  | .insufficientOutputItems => { l with unclogOutputs := true, status := .blkdOut, events }
  | .other _ => { l with events }

/-- The events after a block are those of its last report. -/
@[simp] theorem Loop.leave_events (l : Loop) (b : Block) (r : WorkReport) (events : List Event) :
    (l.leave b r events).events = events := by
  unfold Loop.leave
  split <;> rfl

/-- What one pass of the inner loop can do. -/
theorem blockLoop_cons {isLast : Bool} {position : Nat} {b after : Block} {l l' : Loop}
    {r : WorkReport} {rest : List WorkReport}
    (runs : blockLoop isLast position b l (r :: rest) = .ok (after, l')) :
    (r.leaves isLast = true ∧ after = b.report r ∧
        l' = l.leave (b.report r) r (l.events ++ [.doWork position r]) ∧
        (isLast = true → r.ret = .ok ∨ r.ret = .done → r.calledBack = true)) ∨
      r.leaves isLast = false ∧
        blockLoop isLast position (b.report r) (l.log (.doWork position r)) rest =
          .ok (after, l') := by
  unfold blockLoop at runs
  unfold WorkReport.leaves Loop.leave
  cases code : r.ret with
  | ok | done =>
      rw [code] at runs
      left
      by_cases stuck : (isLast && !r.calledBack) = true
      · simp only [stuck, ↓reduceIte] at runs
        cases runs
      · simp only [stuck, Bool.false_eq_true, ↓reduceIte] at runs
        cases runs
        refine ⟨rfl, rfl, rfl, fun last _ => ?_⟩
        rw [last, Bool.true_and, Bool.not_eq_true', Bool.not_eq_false] at stuck
        exact stuck
  | insufficientInputItems | insufficientOutputItems =>
      rw [code] at runs
      cases isLast with
      | true =>
          cases runs
          exact Or.inl ⟨rfl, rfl, rfl, fun _ code => by rcases code with code | code <;> cases code⟩
      | false => exact Or.inr ⟨rfl, runs⟩
  | other value =>
      rw [code] at runs
      exact Or.inr ⟨rfl, runs⟩

/-- **A block is left with its final report.** The induction is on the reports
still to come; a report that does not end the loop is overwritten by the next. -/
theorem blockLoop_final {isLast : Bool} {position : Nat} {b after : Block} {l l' : Loop}
    {reports : List WorkReport} (runs : blockLoop isLast position b l reports = .ok (after, l')) :
    ∃ r events, reports.find? (WorkReport.leaves isLast) = some r ∧ after = b.report r ∧
      l' = l.leave (b.report r) r (l.events ++ events) ∧ .doWork position r ∈ events ∧
      (isLast = true → r.ret = .ok ∨ r.ret = .done → r.calledBack = true) := by
  induction reports generalizing b l with
  | nil => cases runs
  | cons r rest ih =>
      rcases blockLoop_cons runs with ⟨ends, rfl, rfl, called⟩ | ⟨again, runs⟩
      · exact ⟨r, [.doWork position r], by rw [List.find?_cons_of_pos ends], rfl, rfl,
          List.mem_singleton.mpr rfl, called⟩
      · obtain ⟨final, events, found, left, loop, made, called⟩ := ih runs
        rw [Block.report_report] at left loop
        refine ⟨final, .doWork position r :: events, ?_, left, ?_, List.mem_cons_of_mem _ made,
          called⟩
        · rw [List.find?_cons_of_neg (by rw [again]; decide), found]
        · rw [loop]
          simp only [Loop.log, Loop.leave, List.append_assoc, List.singleton_append]

/-- An inner loop makes no calls but `do_work` of its block. -/
theorem mem_blockLoop_events {isLast : Bool} {position : Nat} {b : Block} {l : Loop}
    {reports : List WorkReport} {event : Event}
    (made : event ∈ loopEvents (blockLoop isLast position b l reports)) :
    event ∈ l.events ∨ ∃ r ∈ reports, event = .doWork position r := by
  induction reports generalizing b l with
  | nil => exact Or.inl made
  | cons r rest ih =>
      have logged (inside : event ∈ l.events ++ [.doWork position r]) :
          event ∈ l.events ∨ ∃ next ∈ r :: rest, event = .doWork position next := by
        rcases List.mem_append.mp inside with earlier | new
        · exact Or.inl earlier
        · exact Or.inr ⟨r, List.mem_cons_self, List.mem_singleton.mp new⟩
      have again (inside : event ∈ loopEvents (blockLoop isLast position (b.report r)
          (l.log (.doWork position r)) rest)) :
          event ∈ l.events ∨ ∃ next ∈ r :: rest, event = .doWork position next := by
        rcases ih inside with earlier | ⟨next, listed, new⟩
        · exact logged earlier
        · exact Or.inr ⟨next, List.mem_cons_of_mem r listed, new⟩
      unfold blockLoop at made
      cases code : r.ret with
      | ok | done =>
          simp only [code] at made
          split at made <;> exact logged made
      | insufficientInputItems | insufficientOutputItems =>
          simp only [code] at made
          split at made
          · exact logged made
          · exact again made
      | other value =>
          simp only [code] at made
          exact again made

/-! ## All blocks -/

/-- The counts that placing hands to a block. -/
theorem place_eq_ok {blocks : List Block} {b placed : Block}
    (places : place blocks b = .ok placed) :
    ∃ inItems outItems, placed = b.place inItems outItems ∧
      (b.inputs ≠ [] → ∃ w, firstInput blocks = .ok w ∧ w.nItems = inItems) ∧
      (b.outputs ≠ [] → ∃ w, lastOutput blocks = .ok w ∧ w.nItems = outItems) := by
  unfold place at places
  obtain ⟨inItems, input, places⟩ := Except.bind_eq_ok places
  obtain ⟨outItems, output, places⟩ := Except.bind_eq_ok places
  cases places
  refine ⟨inItems, outItems, rfl, fun present => ?_, fun present => ?_⟩
  · rw [if_neg (by rwa [List.isEmpty_iff])] at input
    exact Except.map_eq_ok input
  · rw [if_neg (by rwa [List.isEmpty_iff])] at output
    exact Except.map_eq_ok output

/-- Only the block that nothing follows is run as the last one. -/
theorem final_eq_find? {answers : Answers} {ran : List Block} (b : Block) (rest : List Block) :
    (answers.reports ran.length).find? (WorkReport.leaves rest.isEmpty) =
      answers.final (ran.length + (b :: rest).length) ran.length := by
  unfold Answers.final
  congr 2
  cases rest with
  | nil => simp
  | cons next others => simp

/-- What the loop does with the next block, when it returns: a hierarchical
block is passed over, any other is handed its counts and left with its final
report. -/
theorem workLoop_cons {answers : Answers} {ran rest blocks : List Block} {b : Block} {l l' : Loop}
    (runs : workLoop answers ran (b :: rest) l = .ok (blocks, l')) :
    (b.isHier = true ∧ workLoop answers (ran ++ [b]) rest l = .ok (blocks, l')) ∨
      b.isHier = false ∧ ∃ inItems outItems r events,
        answers.final (ran.length + (b :: rest).length) ran.length = some r ∧
        (rest = [] → b.isAsyncBlock = true ∧
          (r.ret = .ok ∨ r.ret = .done → r.calledBack = true)) ∧
        .doWork ran.length r ∈ events ∧
        workLoop answers (ran ++ [b.report r]) rest (l.leave (b.report r) r
          (l.events ++ .placed ran.length (b.place inItems outItems) :: events)) =
            .ok (blocks, l') := by
  unfold workLoop at runs
  cases hier : b.isHier with
  | true =>
      rw [if_pos hier] at runs
      exact Or.inl ⟨rfl, runs⟩
  | false =>
      rw [if_neg (by rw [hier]; decide)] at runs
      obtain ⟨placed, places, runs⟩ := Except.bind_eq_ok runs
      obtain ⟨inItems, outItems, rfl, _, _⟩ := place_eq_ok (Except.mapError_eq_ok places)
      split at runs
      · cases runs
      · rename_i async
        obtain ⟨⟨after, middle⟩, inner, runs⟩ := Except.bind_eq_ok runs
        obtain ⟨r, events, found, left, loop, made, called⟩ := blockLoop_final inner
        rw [Block.report_place] at left loop
        refine Or.inr ⟨rfl, inItems, outItems, r, events, ?_, fun alone => ?_, made, ?_⟩
        · rw [← final_eq_find?, found]
        · subst alone
          refine ⟨?_, called rfl⟩
          simpa only [List.isEmpty_nil, Bool.true_and, Bool.not_eq_true', Bool.not_eq_false]
            using async
        · rw [left, loop] at runs
          simpa only [Loop.log, Loop.leave, List.append_assoc, List.singleton_append] using runs

/-- The loop passes over a hierarchical block. -/
theorem workLoop_of_hier {answers : Answers} {ran rest : List Block} {b : Block} {l : Loop}
    (hier : b.isHier = true) :
    workLoop answers ran (b :: rest) l = workLoop answers (ran ++ [b]) rest l := by
  rw [workLoop, if_pos hier]

/-- The loop goes on once a block has been placed and left. -/
theorem workLoop_of_left {answers : Answers} {ran rest : List Block} {b placed after : Block}
    {l middle : Loop} (part : b.isHier = false) (places : place (ran ++ b :: rest) b = .ok placed)
    (async : (rest.isEmpty && !b.isAsyncBlock) = false)
    (inner : blockLoop rest.isEmpty ran.length placed (l.log (.placed ran.length placed))
      (answers.reports ran.length) = .ok (after, middle)) :
    workLoop answers ran (b :: rest) l = workLoop answers (ran ++ [after]) rest middle := by
  rw [workLoop, if_neg (by rw [part]; decide), places]
  change (if (rest.isEmpty && !b.isAsyncBlock) = true then _ else _) = _
  rw [if_neg (by rw [async]; decide), inner]
  rfl

/-- **The do_work loop serves every block.** The induction is on the blocks that
are still to run. -/
theorem workLoop_blocks {answers : Answers} {ran todo blocks : List Block} {l l' : Loop}
    (runs : workLoop answers ran todo l = .ok (blocks, l')) :
    blocks = answers.served ran todo := by
  induction todo generalizing ran l with
  | nil =>
      cases runs
      rw [Answers.served, List.mapIdx_nil, List.append_nil]
  | cons b rest ih =>
      rw [answers.served_cons]
      rcases workLoop_cons runs with ⟨hier, runs⟩ | ⟨served, _, _, r, _, last, _, _, runs⟩
      · rw [ih runs, answers.serve_of_hier _ _ b hier]
      · rw [ih runs, answers.serve_of_final _ _ b served last]

/-- A returning loop keeps the calls made before it. -/
theorem workLoop_events_mono {answers : Answers} {ran todo blocks : List Block} {l l' : Loop}
    (runs : workLoop answers ran todo l = .ok (blocks, l')) :
    ∀ event ∈ l.events, event ∈ l'.events := by
  induction todo generalizing ran l with
  | nil => cases runs; exact fun event member => member
  | cons b rest ih =>
      intro event member
      rcases workLoop_cons runs with ⟨_, runs⟩ | ⟨_, _, _, _, _, _, _, _, runs⟩
      · exact ih runs event member
      · apply ih runs event
        rw [Loop.leave_events]
        exact List.mem_append_left _ member

/-- In a loop that returns, every block that takes part has been handed its
counts and has made its final report; the last one was called back. -/
theorem workLoop_calls {answers : Answers} {ran todo blocks : List Block} {l l' : Loop}
    (runs : workLoop answers ran todo l = .ok (blocks, l')) {i : Nat} {b : Block}
    (present : todo[i]? = some b) (served : b.isHier = false) :
    ∃ r inItems outItems, answers.final (ran.length + todo.length) (ran.length + i) = some r ∧
      .placed (ran.length + i) (b.place inItems outItems) ∈ l'.events ∧
      .doWork (ran.length + i) r ∈ l'.events ∧
      (i + 1 = todo.length → b.isAsyncBlock = true ∧
        (r.ret = .ok ∨ r.ret = .done → r.calledBack = true)) := by
  induction todo generalizing ran l i with
  | nil => cases present
  | cons head rest ih =>
      have shift (after : Block) : (ran ++ [after]).length + rest.length =
          ran.length + (head :: rest).length := by
        simp only [List.length_append, List.length_cons, List.length_nil]
        omega
      have next (after : Block) (j : Nat) : (ran ++ [after]).length + j = ran.length + (j + 1) := by
        simp only [List.length_append, List.length_cons, List.length_nil]
        omega
      cases i with
      | zero =>
          cases present
          rcases workLoop_cons runs with
            ⟨hier, _⟩ | ⟨_, inItems, outItems, r, events, last, called, made, runs⟩
          · rw [hier] at served
            cases served
          · have kept := workLoop_events_mono runs
            rw [Loop.leave_events] at kept
            refine ⟨r, inItems, outItems, last, ?_, ?_, fun alone => ?_⟩
            · exact kept _ (List.mem_append_right _ List.mem_cons_self)
            · exact kept _ (List.mem_append_right _ (List.mem_cons_of_mem _ made))
            · apply called
              apply List.eq_nil_of_length_eq_zero
              rw [List.length_cons] at alone
              omega
      | succ j =>
          rw [List.getElem?_cons_succ] at present
          have later (after : Block) {middle : Loop}
              (runs : workLoop answers (ran ++ [after]) rest middle = .ok (blocks, l')) := by
            have calls := ih runs present
            rw [shift, next] at calls
            simpa only [List.length_cons, Nat.add_right_cancel_iff] using calls
          rw [List.length_cons, Nat.add_right_cancel_iff]
          rcases workLoop_cons runs with ⟨_, runs⟩ | ⟨_, _, _, _, _, _, _, _, runs⟩
          · exact later _ runs
          · exact later _ runs

private theorem lastOutput_append_cons (ran : List Block) (b : Block) (rest : List Block) :
    lastOutput (ran ++ b :: rest) = lastOutput (b :: rest) := by
  unfold lastOutput
  rw [List.getLast?_append_cons]

/-- A step of the loop over the blocks is recorded by the placing of the next
block, by its inner loop, or by the rest of the loop over what it leaves. -/
theorem mem_workLoop_events {answers : Answers} {ran rest : List Block} {b : Block} {l : Loop}
    {event : Event} (made : event ∈ loopEvents (workLoop answers ran (b :: rest) l)) :
    event ∈ l.events ∨
      (b.isHier = false ∧ ∃ placed, place (ran ++ b :: rest) b = .ok placed ∧
        (event = .placed ran.length placed ∨
          ∃ r ∈ answers.reports ran.length, event = .doWork ran.length r)) ∨
      ∃ middle, event ∈ loopEvents (workLoop answers
        (ran ++ [answers.serve (ran.length + (b :: rest).length) ran.length b]) rest middle) ∧
        ∀ earlier ∈ middle.events, earlier ∈ l.events ∨
          (b.isHier = false ∧ ∃ placed, place (ran ++ b :: rest) b = .ok placed ∧
            (earlier = .placed ran.length placed ∨
              ∃ r ∈ answers.reports ran.length, earlier = .doWork ran.length r)) := by
  unfold workLoop at made
  cases hier : b.isHier with
  | true =>
      rw [if_pos hier] at made
      rw [answers.serve_of_hier _ _ b hier]
      exact Or.inr (Or.inr ⟨l, made, fun earlier member => Or.inl member⟩)
  | false =>
      rw [if_neg (by rw [hier]; decide)] at made
      rcases mem_callsOf_bind made with ⟨abort, fails, before⟩ | ⟨placed, places, made⟩
      · cases outcome : place (ran ++ b :: rest) b with
        | ok placed => rw [outcome] at fails; cases fails
        | error cause =>
            rw [outcome] at fails
            cases fails
            exact Or.inl before
      · have places := Except.mapError_eq_ok places
        have logged (earlier : Event)
            (inside : earlier ∈ (l.log (.placed ran.length placed)).events ∨
              ∃ r ∈ answers.reports ran.length, earlier = .doWork ran.length r) :
            earlier ∈ l.events ∨ (false = false ∧ ∃ placed, place (ran ++ b :: rest) b =
              .ok placed ∧ (earlier = .placed ran.length placed ∨
                ∃ r ∈ answers.reports ran.length, earlier = .doWork ran.length r)) := by
          rcases inside with listed | called
          · rcases List.mem_append.mp listed with old | new
            · exact Or.inl old
            · exact Or.inr ⟨rfl, placed, places, Or.inl (List.mem_singleton.mp new)⟩
          · exact Or.inr ⟨rfl, placed, places, Or.inr called⟩
        split at made
        · rcases logged event (Or.inl made) with old | new
          · exact Or.inl old
          · exact Or.inr (Or.inl new)
        · rcases mem_callsOf_bind made with ⟨abort, fails, before⟩ | ⟨⟨after, middle⟩, inner, later⟩
          · have inside := mem_blockLoop_events (by rw [fails]; exact before)
            rcases logged event inside with old | new
            · exact Or.inl old
            · exact Or.inr (Or.inl new)
          · obtain ⟨_, _, rfl, _, _⟩ := place_eq_ok places
            obtain ⟨r, _, found, left, _⟩ := blockLoop_final inner
            rw [Block.report_place] at left
            have served : answers.serve (ran.length + (b :: rest).length) ran.length b = after := by
              rw [left]
              apply answers.serve_of_final _ _ b hier
              rw [← final_eq_find?, found]
            rw [served]
            refine Or.inr (Or.inr ⟨middle, later, fun earlier member => ?_⟩)
            exact logged earlier (mem_blockLoop_events (by rw [inner]; exact member))

/-- The first input port is found exactly when it is there. -/
theorem firstInput_eq_ok {blocks : List Block} {w : BlockWorkInput} :
    firstInput blocks = .ok w ↔ blocks.head?.bind (fun b => b.inputs.head?) = some w := by
  unfold firstInput
  split <;> rename_i found <;> rw [found] <;> simp

/-- The last block's first output port is found exactly when it is there. -/
theorem lastOutput_eq_ok {blocks : List Block} {w : BlockWorkOutput} :
    lastOutput blocks = .ok w ↔ blocks.getLast?.bind (fun b => b.outputs.head?) = some w := by
  unfold lastOutput
  split <;> rename_i found <;> rw [found] <;> simp

private theorem firstInput_append {ran : List Block} (behind : ran ≠ [])
    (todo others : List Block) : firstInput (ran ++ todo) = firstInput (ran ++ others) := by
  cases ran with
  | nil => exact (behind rfl).elim
  | cons head rest => rfl

/-- **What placing hands to the ports.** The input count is that of the first
block's first port when the turn of the block comes; the output count is that of
the last block's first port at the start of the loop, since no earlier block has
touched it. -/
theorem placed_workLoop {answers : Answers} {ran todo : List Block} {l : Loop} {p : Nat}
    {wio : Block} (made : .placed p wio ∈ loopEvents (workLoop answers ran todo l)) :
    .placed p wio ∈ l.events ∨ ∃ i b inItems outItems, todo[i]? = some b ∧ p = ran.length + i ∧
      b.isHier = false ∧ wio = b.place inItems outItems ∧
      (b.inputs ≠ [] → ∃ w, w.nItems = inItems ∧
        firstInput (if p = 0 then todo else answers.served ran todo) = .ok w) ∧
      (b.outputs ≠ [] → ∃ w, w.nItems = outItems ∧ lastOutput todo = .ok w) := by
  induction todo generalizing ran l with
  | nil => exact Or.inl made
  | cons b rest ih =>
      have here {event : Event} (position : event = .placed p wio)
          (step : b.isHier = false ∧ ∃ placed, place (ran ++ b :: rest) b = .ok placed ∧
            (event = .placed ran.length placed ∨
              ∃ r ∈ answers.reports ran.length, event = .doWork ran.length r)) :
          ∃ i next inItems outItems, (b :: rest)[i]? = some next ∧ p = ran.length + i ∧
            next.isHier = false ∧ wio = next.place inItems outItems ∧
            (next.inputs ≠ [] → ∃ w, w.nItems = inItems ∧
              firstInput (if p = 0 then b :: rest else answers.served ran (b :: rest)) = .ok w) ∧
            (next.outputs ≠ [] → ∃ w, w.nItems = outItems ∧ lastOutput (b :: rest) = .ok w) := by
        obtain ⟨served, placed, places, same | ⟨r, _, same⟩⟩ := step
        · rw [position] at same
          cases same
          obtain ⟨inItems, outItems, shape, input, output⟩ := place_eq_ok places
          refine ⟨0, b, inItems, outItems, rfl, rfl, served, shape, fun present => ?_,
            fun present => ?_⟩
          · obtain ⟨w, first, count⟩ := input present
            refine ⟨w, count, ?_⟩
            rw [← first]
            split
            · rename_i start
              rw [List.eq_nil_of_length_eq_zero start, List.nil_append]
            · rename_i later
              exact firstInput_append (fun none => later (by rw [none, List.length_nil])) _ _
          · obtain ⟨w, last, count⟩ := output present
            rw [lastOutput_append_cons] at last
            exact ⟨w, count, last⟩
        · rw [position] at same
          cases same
      rcases mem_workLoop_events made with old | step | ⟨middle, made, before⟩
      · exact Or.inl old
      · exact Or.inr (here rfl step)
      · rcases ih made with earlier | ⟨i, next, inItems, outItems, present, position, served, shape,
          input, output⟩
        · rcases before _ earlier with old | step
          · exact Or.inl old
          · exact Or.inr (here rfl step)
        · rw [List.length_append, List.length_singleton] at position
          refine Or.inr ⟨i + 1, next, inItems, outItems, present, by omega, served, shape,
            fun ports => ?_, fun ports => ?_⟩
          · obtain ⟨w, count, first⟩ := input ports
            refine ⟨w, count, ?_⟩
            have behind : p ≠ 0 := by omega
            rw [if_neg behind] at first ⊢
            rw [answers.served_cons, first]
          · obtain ⟨w, count, last⟩ := output ports
            refine ⟨w, count, ?_⟩
            cases rest with
            | nil => cases present
            | cons second others => rw [← last, lastOutput, List.getLast?_cons_cons, ← lastOutput]

/-- Every call of `do_work` is answered by a report. -/
theorem doWork_workLoop {answers : Answers} {ran todo : List Block} {l : Loop} {p : Nat}
    {r : WorkReport} (made : .doWork p r ∈ loopEvents (workLoop answers ran todo l)) :
    .doWork p r ∈ l.events ∨ r ∈ answers.reports p := by
  induction todo generalizing ran l with
  | nil => exact Or.inl made
  | cons b rest ih =>
      have here {event : Event} (position : event = .doWork p r)
          (step : b.isHier = false ∧ ∃ placed, place (ran ++ b :: rest) b = .ok placed ∧
            (event = .placed ran.length placed ∨
              ∃ r ∈ answers.reports ran.length, event = .doWork ran.length r)) :
          r ∈ answers.reports p := by
        obtain ⟨_, _, _, same | ⟨report, listed, same⟩⟩ := step
        · rw [position] at same
          cases same
        · rw [position] at same
          cases same
          exact listed
      rcases mem_workLoop_events made with old | step | ⟨middle, made, before⟩
      · exact Or.inl old
      · exact Or.inr (here rfl step)
      · rcases ih made with earlier | listed
        · rcases before _ earlier with old | step
          · exact Or.inl old
          · exact Or.inr (here rfl step)
        · exact Or.inr listed

end GraphExecutor

end TorchDsp
