import TorchDsp.Executor.Steps
import TorchDsp.Wrapper.Basic

/-! # Which iterations report DONE

Every block that returns `OK` or `DONE` assigns the status of the iteration, so
the last block that takes part decides it. A block that is done is reported
exactly when that one is done, too, and the iteration comes to an end
(`TorchDsp.GraphExecutor.done_reported_iff`).
-/

namespace TorchDsp

/-- Every call of `do_work` returns, with `OK` or `DONE`. -/
def Answers.OkOrDone (answers : Answers) : Prop :=
  ∀ p, answers.reports p ≠ [] ∧ ∀ r ∈ answers.reports p, r.ret = .ok ∨ r.ret = .done

/-- The last of the blocks `todo` that takes part returns `DONE`; the first of
them stands at position `start`. -/
def Answers.EndsDone (answers : Answers) (count start : Nat) (todo : List Block) : Prop :=
  ∃ i b r, todo[i]? = some b ∧ b.isHier = false ∧
    (∀ j c, i < j → todo[j]? = some c → c.isHier = true) ∧
    answers.final count (start + i) = some r ∧ r.ret = .done

/-- The numbers of ports of a block. -/
def Block.ports (b : Block) : Nat × Nat :=
  (b.inputs.length, b.outputs.length)

namespace GraphExecutor

/-- The first block has an input port and the last one an output port. -/
def HasPorts (blocks : List Block) : Prop :=
  (∃ first, blocks.head? = some first ∧ first.inputs ≠ []) ∧
    ∃ last, blocks.getLast? = some last ∧ last.outputs ≠ []

/-- The last block, if it takes part, can be waited for. -/
def Awaitable (answers : Answers) (count : Nat) (blocks : List Block) : Prop :=
  ∀ last, blocks.getLast? = some last → last.isHier = false →
    last.isAsyncBlock = true ∧ ∀ r, answers.final count (count - 1) = some r → r.calledBack = true

/-! ## Iterations that come to an end -/

private theorem HasPorts.of_ports {blocks others : List Block}
    (same : blocks.map Block.ports = others.map Block.ports) (ports : HasPorts others) :
    HasPorts blocks := by
  obtain ⟨⟨first, head, inputs⟩, last, tail, outputs⟩ := ports
  constructor
  · have both := congrArg List.head? same
    rw [List.head?_map, List.head?_map, head] at both
    obtain ⟨b, here, counts⟩ := Option.map_eq_some_iff.mp both
    refine ⟨b, here, fun none => inputs ?_⟩
    have length := congrArg Prod.fst counts
    simp only [Block.ports, none, List.length_nil] at length
    exact List.eq_nil_of_length_eq_zero length.symm
  · have both := congrArg List.getLast? same
    rw [List.getLast?_map, List.getLast?_map, tail] at both
    obtain ⟨b, here, counts⟩ := Option.map_eq_some_iff.mp both
    refine ⟨b, here, fun none => outputs ?_⟩
    have length := congrArg Prod.snd counts
    simp only [Block.ports, none, List.length_nil] at length
    exact List.eq_nil_of_length_eq_zero length.symm

/-- The first input port is found. -/
theorem HasPorts.firstInput {blocks : List Block} (ports : HasPorts blocks) :
    ∃ w, firstInput blocks = .ok w := by
  obtain ⟨⟨first, head, inputs⟩, _⟩ := ports
  obtain ⟨w, others, shape⟩ := List.exists_cons_of_ne_nil inputs
  refine ⟨w, firstInput_eq_ok.mpr ?_⟩
  rw [head, Option.bind_some, shape, List.head?_cons]

/-- The last output port is found. -/
theorem HasPorts.lastOutput {blocks : List Block} (ports : HasPorts blocks) :
    ∃ w, lastOutput blocks = .ok w := by
  obtain ⟨_, last, tail, outputs⟩ := ports
  obtain ⟨w, others, shape⟩ := List.exists_cons_of_ne_nil outputs
  refine ⟨w, lastOutput_eq_ok.mpr ?_⟩
  rw [tail, Option.bind_some, shape, List.head?_cons]

private theorem place_of_hasPorts {blocks : List Block} (ports : HasPorts blocks) (b : Block) :
    ∃ inItems outItems, place blocks b = .ok (b.place inItems outItems) := by
  obtain ⟨w, input⟩ := ports.firstInput
  obtain ⟨w', output⟩ := ports.lastOutput
  unfold place
  rw [input, output]
  cases b.inputs.isEmpty <;> cases b.outputs.isEmpty <;> exact ⟨_, _, rfl⟩

private theorem leaves_of_okOrDone {r : WorkReport} (outcome : r.ret = .ok ∨ r.ret = .done)
    (isLast : Bool) : r.leaves isLast = true := by
  rcases outcome with code | code <;> rw [WorkReport.leaves, code]

/-- A block whose first report is `OK` or `DONE` is left with it. -/
theorem blockLoop_of_okOrDone {isLast : Bool} {position : Nat} {b : Block} {l : Loop}
    {r : WorkReport} {rest : List WorkReport} (outcome : r.ret = .ok ∨ r.ret = .done)
    (called : isLast = true → r.calledBack = true) :
    blockLoop isLast position b l (r :: rest) =
      .ok (b.report r, l.leave (b.report r) r (l.events ++ [.doWork position r])) := by
  have awaited : (isLast && !r.calledBack) = false := by
    cases isLast with
    | false => rfl
    | true => rw [called rfl]; rfl
  unfold blockLoop Loop.leave
  rcases outcome with code | code <;>
    simp only [code, awaited, Bool.false_eq_true, ↓reduceIte, Loop.log]

/-- **The do_work loop comes to an end.** The induction is on the blocks that
are still to run; those behind them keep their ports. -/
theorem workLoop_returns {answers : Answers} (outcomes : answers.OkOrDone) {ran todo : List Block}
    {l : Loop} (ports : HasPorts (ran ++ todo))
    (awaitable : Awaitable answers (ran.length + todo.length) todo) :
    ∃ blocks l', workLoop answers ran todo l = .ok (blocks, l') := by
  induction todo generalizing ran l with
  | nil => exact ⟨ran, l, rfl⟩
  | cons b rest ih =>
      have later (after : Block) (kept : after.ports = b.ports) (middle : Loop) :
          ∃ blocks l', workLoop answers (ran ++ [after]) rest middle = .ok (blocks, l') := by
        apply ih
        · refine HasPorts.of_ports ?_ ports
          simp only [List.map_append, List.map_cons, kept, List.append_assoc, List.singleton_append]
        · intro last atEnd part
          have count : (ran ++ [after]).length + rest.length =
              ran.length + (b :: rest).length := by
            simp only [List.length_append, List.length_cons, List.length_nil]
            omega
          rw [count]
          cases rest with
          | nil => cases atEnd
          | cons next others => exact awaitable last (by rwa [List.getLast?_cons_cons]) part
      cases part : b.isHier with
      | true =>
          rw [workLoop_of_hier part]
          exact later b rfl l
      | false =>
          obtain ⟨inItems, outItems, placed⟩ := place_of_hasPorts ports b
          obtain ⟨first, others, shape⟩ := List.exists_cons_of_ne_nil (outcomes ran.length).1
          have outcome : first.ret = .ok ∨ first.ret = .done :=
            (outcomes ran.length).2 first (by rw [shape]; exact List.mem_cons_self)
          have final (alone : rest.isEmpty = true) :
              b.isAsyncBlock = true ∧ first.calledBack = true := by
            obtain rfl := List.isEmpty_iff.mp alone
            obtain ⟨async, called⟩ := awaitable b rfl part
            refine ⟨async, called first ?_⟩
            unfold Answers.final
            rw [List.length_singleton, Nat.add_sub_cancel, shape]
            exact List.find?_cons_of_pos (leaves_of_okOrDone outcome _)
          have async : (rest.isEmpty && !b.isAsyncBlock) = false := by
            cases alone : rest.isEmpty with
            | false => rfl
            | true => rw [(final alone).1]; rfl
          have inner (middle : Loop) := @blockLoop_of_okOrDone rest.isEmpty ran.length
            (b.place inItems outItems) middle first others outcome fun alone => (final alone).2
          rw [workLoop_of_left part placed async (by rw [shape]; exact inner _)]
          apply later
          simp only [Block.ports, Block.report, Block.place, List.length_mapIdx, List.length_map]

/-! ## The status of the last block -/

private theorem workStatus_eq_done {b : Block} {ret : WorkReturn}
    (outcome : ret = .ok ∨ ret = .done) : workStatus b ret = .done ↔ ret = .done := by
  rcases outcome with rfl | rfl
  · simp only [workStatus, reduceCtorEq, iff_false]
    split <;> exact fun absurd => by cases absurd
  · exact iff_of_true rfl rfl

private theorem endsDone_cons {answers : Answers} {count start : Nat} {b : Block}
    {rest : List Block} :
    answers.EndsDone count start (b :: rest) ↔
      answers.EndsDone count (start + 1) rest ∨
        (b.isHier = false ∧ (∀ c ∈ rest, c.isHier = true) ∧
          ∃ r, answers.final count start = some r ∧ r.ret = .done) := by
  constructor
  · rintro ⟨i, last, r, present, part, others, final, code⟩
    cases i with
    | zero =>
        cases present
        refine Or.inr ⟨part, fun c member => ?_, r, final, code⟩
        obtain ⟨j, here⟩ := List.mem_iff_getElem?.mp member
        exact others (j + 1) c (Nat.succ_pos j) here
    | succ i =>
        refine Or.inl ⟨i, last, r, present, part, fun j c after here => ?_, ?_, code⟩
        · exact others (j + 1) c (Nat.succ_lt_succ after) here
        · rwa [Nat.add_assoc, Nat.add_comm 1]
  · rintro (⟨i, last, r, present, part, others, final, code⟩ | ⟨part, others, r, final, code⟩)
    · refine ⟨i + 1, last, r, present, part, fun j c after here => ?_, ?_, code⟩
      · cases j with
        | zero => exact absurd after (Nat.not_lt_zero _)
        | succ j => exact others j c (Nat.lt_of_succ_lt_succ after) here
      · rwa [Nat.add_comm i, ← Nat.add_assoc]
    · refine ⟨0, b, r, rfl, part, fun j c after here => ?_, final, code⟩
      cases j with
      | zero => exact absurd after (Nat.lt_irrefl 0)
      | succ j => exact others c (List.mem_of_getElem? here)

/-- **The last block that takes part decides the status.** -/
theorem workLoop_status {answers : Answers} (outcomes : answers.OkOrDone)
    {ran todo blocks : List Block} {l l' : Loop}
    (runs : workLoop answers ran todo l = .ok (blocks, l')) :
    (l'.status = .done ↔ answers.EndsDone (ran.length + todo.length) ran.length todo ∨
      ((∀ b ∈ todo, b.isHier = true) ∧ l.status = .done)) ∧
    l'.unclogInputs = l.unclogInputs ∧ l'.unclogOutputs = l.unclogOutputs := by
  induction todo generalizing ran l with
  | nil =>
      cases runs
      refine ⟨?_, rfl, rfl⟩
      constructor
      · exact fun finished => Or.inr ⟨fun b absurd => (List.not_mem_nil absurd).elim, finished⟩
      · rintro (⟨i, b, r, absurd, _⟩ | ⟨_, finished⟩)
        · cases absurd
        · exact finished
  | cons b rest ih =>
      have shift (after : Block) : (ran ++ [after]).length + rest.length =
          ran.length + (b :: rest).length := by
        simp only [List.length_append, List.length_cons, List.length_nil]
        omega
      have next (after : Block) : (ran ++ [after]).length = ran.length + 1 := List.length_append
      rw [endsDone_cons]
      rcases workLoop_cons runs with
        ⟨hier, runs⟩ | ⟨part, _, _, r, events, final, _, _, runs⟩
      · obtain ⟨status, flags⟩ := ih runs
        rw [shift, next] at status
        refine ⟨?_, flags⟩
        rw [status]
        simp only [hier, Bool.true_eq_false, false_and, or_false, List.mem_cons, forall_eq_or_imp,
          true_and]
      · obtain ⟨status, flags⟩ := ih runs
        have outcome := (outcomes _).2 r (List.mem_of_find?_eq_some final)
        have left (events : List Event) : l.leave (b.report r) r events =
            { l with status := workStatus (b.report r) r.ret, events } := by
          unfold Loop.leave
          rcases outcome with code | code <;> rw [code]
        rw [left] at status flags
        rw [shift, next, workStatus_eq_done outcome] at status
        refine ⟨?_, flags⟩
        rw [status]
        simp only [part, final, true_and, Option.some.injEq, exists_eq_left', List.mem_cons,
          forall_eq_or_imp, Bool.false_eq_true, false_and, or_false]

/-! ## The iteration -/

section Iterations

variable {answers : Answers} {g g' : Group}

private theorem ports_of_sameTotals (same : g.SameTotals g') :
    g'.blocks.map Block.ports = g.blocks.map Block.ports := by
  have forget : Block.ports ∘ Block.bare = Block.ports := by
    funext b
    exact Prod.ext b.bare_length_inputs b.bare_length_outputs
  have both := congrArg (List.map Block.ports) same.blocks
  rwa [List.map_map, List.map_map, forget] at both

private theorem ports_worked {blocks : List Block} {l : Loop}
    (runs : workLoop answers [] g.blocks {} = .ok (blocks, l)) :
    blocks.map Block.ports = g.blocks.map Block.ports := by
  rw [workLoop_blocks runs, answers.served_nil_left]
  apply List.ext_getElem?
  intro p
  rw [List.getElem?_map, List.getElem?_map, List.getElem?_mapIdx, Option.map_map]
  congr 1
  funext b
  exact Prod.ext (answers.length_inputs_serve _ p b) (answers.length_outputs_serve _ p b)

private theorem awaitable_of_sameTotals (same : g.SameTotals g')
    (awaitable : Awaitable answers g.blocks.length g.blocks) :
    Awaitable answers g'.blocks.length g'.blocks := by
  intro last atEnd part
  rw [List.getLast?_eq_getElem?, same.length_eq] at atEnd
  obtain ⟨b, here, bare⟩ := same.symm.block atEnd
  rw [same.length_eq, ← last.bare_isAsyncBlock, ← bare, b.bare_isAsyncBlock]
  apply awaitable b
  · rw [List.getLast?_eq_getElem?, here]
  · rw [← b.bare_isHier, bare, last.bare_isHier, part]

private theorem endsDone_of_sameTotals (same : g.SameTotals g') {count : Nat}
    (ends : answers.EndsDone count 0 g.blocks) : answers.EndsDone count 0 g'.blocks := by
  obtain ⟨i, b, r, present, part, others, final, code⟩ := ends
  obtain ⟨b', present', bare⟩ := same.block present
  refine ⟨i, b', r, present', ?_, fun j c' after here => ?_, final, code⟩
  · rw [← b'.bare_isHier, bare, b.bare_isHier, part]
  · obtain ⟨c, here', bare'⟩ := same.symm.block here
    rw [← c'.bare_isHier, ← bare', c.bare_isHier]
    exact others j c after here'

private theorem commit_of_hasPorts (ports : HasPorts g.blocks) (events : List Event) :
    ∃ result, commit g events = .ok result := by
  obtain ⟨w, input⟩ := ports.firstInput
  obtain ⟨w', output⟩ := ports.lastOutput
  rw [← lastOutput_postReads] at output
  simp only [commit, input, output, Except.mapError, bind, Except.bind]
  exact ⟨_, rfl⟩

/-- With ports at both ends and a last block that can be waited for, an
iteration that reaches its do_work loop returns. -/
theorem runOneIteration_returns (outcomes : answers.OkOrDone) (reaches : passes answers g = true)
    (ports : HasPorts g.blocks) (awaitable : Awaitable answers g.blocks.length g.blocks) :
    ∃ iteration, runOneIteration answers g = .ok iteration := by
  obtain ⟨ready, checks⟩ := passes_eq_true.mp reaches
  have same := (negotiate_cases checks).1
  have ports' := ports.of_ports (ports_of_sameTotals same)
  obtain ⟨blocks, l, runs⟩ := @workLoop_returns answers outcomes [] ready.blocks {} ports' (by
    rw [List.length_nil, Nat.zero_add]
    exact awaitable_of_sameTotals same awaitable)
  obtain ⟨_, inputs, outputs⟩ := workLoop_status outcomes runs
  obtain ⟨⟨after, events⟩, commits⟩ := @commit_of_hasPorts { ready with blocks }
    (ports'.of_ports (ports_worked runs)) l.events
  unfold runOneIteration
  rw [checks]
  simp only [Except.mapError, bind, Except.bind, runs, commits, inputs, outputs,
    Bool.false_eq_true, ↓reduceIte]
  exact ⟨_, rfl⟩

/-- The status of an iteration that runs its blocks. -/
theorem status_eq_done_iff (outcomes : answers.OkOrDone) {iteration : Iteration}
    (returns : runOneIteration answers g = .ok iteration) :
    iteration.status = .done ↔
      passes answers g = true ∧ answers.EndsDone g.blocks.length 0 g.blocks := by
  cases course returns with
  | inputsBlocked checks =>
      refine iff_of_false (fun absurd => by cases absurd) fun ⟨reaches, _⟩ => ?_
      obtain ⟨_, other⟩ := passes_eq_true.mp reaches
      rw [checks] at other
      cases other
  | outputsBlocked events checks =>
      refine iff_of_false (fun absurd => by cases absurd) fun ⟨reaches, _⟩ => ?_
      obtain ⟨_, other⟩ := passes_eq_true.mp reaches
      rw [checks] at other
      cases other
  | worked ready events checks runs atStart atEnd kept =>
      have same := (negotiate_cases checks).1
      have status := (workLoop_status outcomes runs).1
      rw [List.length_nil, Nat.zero_add, same.length_eq] at status
      rw [status]
      constructor
      · rintro (ends | ⟨_, absurd⟩)
        · exact ⟨passes_eq_true.mpr ⟨ready, checks⟩, endsDone_of_sameTotals same.symm ends⟩
        · cases absurd
      · exact fun ⟨_, ends⟩ => Or.inl (endsDone_of_sameTotals same ends)

/-- What an iteration that returns after running its blocks has needed. -/
theorem needs_of_passes (outcomes : answers.OkOrDone) {iteration : Iteration}
    (returns : runOneIteration answers g = .ok iteration) (reaches : passes answers g = true) :
    HasPorts g.blocks ∧ Awaitable answers g.blocks.length g.blocks := by
  constructor
  · obtain ⟨ready, checks⟩ := passes_eq_true.mp reaches
    cases course returns with
    | inputsBlocked blocked => rw [checks] at blocked; cases blocked
    | outputsBlocked events blocked => rw [checks] at blocked; cases blocked
    | @worked g' blocks l w0 w events checks runs atStart atEnd kept =>
        obtain ⟨first, head, port⟩ := Option.bind_eq_some_iff.mp (firstInput_eq_ok.mp atStart)
        obtain ⟨last, tail, port'⟩ := Option.bind_eq_some_iff.mp (lastOutput_eq_ok.mp atEnd)
        have ports : HasPorts blocks :=
          ⟨⟨first, head, List.ne_nil_of_mem (List.mem_of_mem_head? port)⟩,
            last, tail, List.ne_nil_of_mem (List.mem_of_mem_head? port')⟩
        have ready := ports.of_ports (ports_worked runs).symm
        exact ready.of_ports (ports_of_sameTotals (negotiate_cases checks).1).symm
  · intro last atEnd part
    rw [List.getLast?_eq_getElem?] at atEnd
    obtain ⟨r, _, final, _, _, awaited⟩ := calls_of_passes returns reaches atEnd part
    have bound := (List.getElem?_eq_some_iff.mp atEnd).1
    obtain ⟨async, called⟩ := awaited (by omega)
    refine ⟨async, fun r' final' => ?_⟩
    rw [final] at final'
    cases final'
    exact called ((outcomes _).2 r (List.mem_of_find?_eq_some final))

/-- An iteration returns DONE only if a block did. -/
theorem done_of_status (outcomes : answers.OkOrDone) {iteration : Iteration}
    (returns : runOneIteration answers g = .ok iteration) (finished : iteration.status = .done) :
    ∃ p r, .doWork p r ∈ eventsOf (runOneIteration answers g) ∧ r.ret = .done := by
  obtain ⟨reaches, i, b, r, present, part, _, final, code⟩ :=
    (status_eq_done_iff outcomes returns).mp finished
  obtain ⟨r', _, final', _, made, _⟩ := calls_of_passes returns reaches present part
  rw [Nat.zero_add, final'] at final
  cases final
  exact ⟨i, r, made, code⟩

end Iterations

/-- **Which iterations report DONE.** A block's DONE reaches the runtime monitor,
and nothing else does, exactly when no block returns DONE, or the last block that
takes part does and the iteration can come to its end. -/
theorem done_reported_iff (opts : SchedulerTritonOptions) (w : ThreadWrapper) (answers : Answers)
    (g : Group) (outcomes : answers.OkOrDone) :
    ((∃ p r, .doWork p r ∈ eventsOf (runOneIteration answers g) ∧ r.ret = .done) →
      ∃ iteration, runOneIteration answers g = .ok iteration ∧ iteration.status = .done ∧
        .done (some w.id) ∈ (w.handleWorkNotification opts iteration.status).2.1) ∧
    (∀ iteration, runOneIteration answers g = .ok iteration → iteration.status = .done →
      ∃ p r, .doWork p r ∈ eventsOf (runOneIteration answers g) ∧ r.ret = .done) ↔
    (∀ p r, .doWork p r ∈ eventsOf (runOneIteration answers g) → r.ret ≠ .done) ∨
      HasPorts g.blocks ∧ Awaitable answers g.blocks.length g.blocks ∧
        answers.EndsDone g.blocks.length 0 g.blocks := by
  constructor
  · rintro ⟨reported, _⟩
    by_cases some : ∃ p r, .doWork p r ∈ eventsOf (runOneIteration answers g) ∧ r.ret = .done
    · obtain ⟨iteration, returns, finished, _⟩ := reported some
      obtain ⟨reaches, ends⟩ := (status_eq_done_iff outcomes returns).mp finished
      obtain ⟨ports, awaitable⟩ := needs_of_passes outcomes returns reaches
      exact Or.inr ⟨ports, awaitable, ends⟩
    · exact Or.inl fun p r made code => some ⟨p, r, made, code⟩
  · intro condition
    refine ⟨fun ⟨p, r, made, code⟩ => ?_, fun iteration returns finished =>
      done_of_status outcomes returns finished⟩
    rcases condition with none | ⟨ports, awaitable, ends⟩
    · exact absurd code (none p r made)
    · obtain ⟨ready, checks, _⟩ := work_inside rfl made
      have reaches := passes_eq_true.mpr ⟨ready, checks⟩
      obtain ⟨iteration, returns⟩ := runOneIteration_returns outcomes reaches ports awaitable
      have finished := (status_eq_done_iff outcomes returns).mpr ⟨reaches, ends⟩
      exact ⟨iteration, returns, finished,
        ThreadWrapper.mem_done_handleWorkNotification.mpr finished⟩

/-- The first block returns `first`, the others `second`; each moves four items. -/
def returning (first second : WorkReturn) : Answers where
  reports := fun p =>
    [⟨if p = 0 then first else second, fun _ => 4, fun _ => 4, fun _ => 4, fun _ => 4, true⟩]

private theorem returning_okOrDone {first second : WorkReturn} (one : first = .ok ∨ first = .done)
    (two : second = .ok ∨ second = .done) : (returning first second).OkOrDone := by
  refine fun p => ⟨List.cons_ne_nil _ _, fun r listed => ?_⟩
  cases List.mem_singleton.mp listed
  cases p with
  | zero => exact one
  | succ p => exact two

/-- A chain whose last block returns DONE reports DONE. -/
theorem last_done_reported :
    ∃ iteration, runOneIteration (returning .ok .done) (twoBlocks 4 16) = .ok iteration ∧
      iteration.status = .done ∧ .done (some 0) ∈
        (ThreadWrapper.handleWorkNotification {} {} iteration.status).2.1 := by
  refine ((done_reported_iff {} {} (returning .ok .done) (twoBlocks 4 16)
    (returning_okOrDone (Or.inl rfl) (Or.inr rfl))).mpr (Or.inr ⟨?_, ?_, ?_⟩)).1 ?_
  · exact ⟨⟨_, rfl, List.cons_ne_nil _ _⟩, _, rfl, List.cons_ne_nil _ _⟩
  · intro last atEnd _
    cases atEnd
    exact ⟨rfl, fun r final => by cases final; rfl⟩
  · refine ⟨1, _, _, rfl, rfl, fun j c after present => ?_, rfl, rfl⟩
    match j with
    | j + 2 => cases present
  · exact ⟨1, _, List.Mem.tail _ (List.Mem.tail _ (List.Mem.tail _ (List.Mem.head _))), rfl⟩

/-- The first of two blocks is done and the second is not: the iteration returns
READY and nothing is reported. -/
theorem first_done_unreported :
    (returning .done .ok).OkOrDone ∧
    (∃ r, .doWork 0 r ∈ eventsOf (runOneIteration (returning .done .ok) (twoBlocks 4 16)) ∧
      r.ret = .done) ∧
    ∃ iteration, runOneIteration (returning .done .ok) (twoBlocks 4 16) = .ok iteration ∧
      iteration.status = .ready ∧
      (ThreadWrapper.handleWorkNotification {} {} iteration.status).2.1 = [] :=
  ⟨returning_okOrDone (Or.inr rfl) (Or.inl rfl), ⟨_, List.Mem.tail _ (List.Mem.head _), rfl⟩,
    _, rfl, rfl, rfl⟩

end GraphExecutor

end TorchDsp
