import TorchDsp.Flowgraph.Atomic

/-! # Two schedulers as a pair

Two adjacent workers with iterations of one step are an abstraction of two schedulers
of a flowgraph. While no index moves, each sees of the other its messages only, and
every run of the pair is a run of the schedulers, phase by phase and message by message
(`TorchDsp.Flowgraph.run_of_pair`).
-/

namespace TorchDsp

open GraphExecutor ThreadWrapper

/-- Two schedulers are connected like the sides of a pair, and not to themselves. -/
structure Links.Places {n : Nat} (links : Links) (wiring : Wiring n) (place : Side → Fin n) :
    Prop where
  apart : place .upstream ≠ place .downstream
  toDownstream : ∀ port,
    (wiring.readers (place .upstream) port).count (place .downstream) = links.toDownstream port
  toUpstream : ∀ port,
    (wiring.writers (place .downstream) port).count (place .upstream) = links.toUpstream port
  behind : ∀ port side, place side ∉ wiring.writers (place .upstream) port
  ahead : ∀ port side, place side ∉ wiring.readers (place .downstream) port
  noLoop : ∀ port, place .upstream ∉ wiring.readers (place .upstream) port ∧
    place .downstream ∉ wiring.writers (place .downstream) port

namespace Flowgraph

variable {n : Nat} {opts : Fin n → SchedulerTritonOptions} {wiring : Wiring n}
  {f f' : Flowgraph n} {u v : Fin n} {answers : Answers} {links : Links} {place : Side → Fin n}
  {p p' : Pair}

/-- Two schedulers stand where the workers of a pair do. -/
structure Shows (place : Side → Fin n) (p : Pair) (f : Flowgraph n) : Prop where
  thread : ∀ side, (f.schedulers (place side)).thread = (p.worker side).thread
  group : ∀ side, f.group (place side) = (p.worker side).group
  point : ∀ side, (f.schedulers (place side)).point = .start
  sending : ∀ side, (f.schedulers (place side)).sending = []

/-! ## Messages -/

private theorem receive_eq (w : Worker) (msgs : List SchedulerMessage) :
    w.receive msgs = { w with thread := received w.thread msgs } := by
  have pushed (wrapper : ThreadWrapper) : msgs.foldl pushMessage wrapper =
      { wrapper with msgq := wrapper.msgq ++ msgs } := by
    induction msgs generalizing wrapper with
    | nil => rw [List.foldl_nil, List.append_nil]
    | cons msg rest ih =>
        rw [List.foldl_cons, ih, pushMessage, List.append_assoc]
        rfl
  rw [Worker.receive, pushed]
  rfl

private theorem addressed_map (v : Fin n) (targets : List (Fin n)) (msg : SchedulerMessage) :
    addressed v (targets.map (·, msg)) = List.replicate (targets.count v) msg := by
  induction targets with
  | nil => rfl
  | cons w rest ih =>
      unfold addressed at ih ⊢
      rw [List.map_cons, List.filterMap_cons, ih, List.count_cons]
      by_cases same : w = v
      · simp [same, List.replicate_succ]
      · simp [same]

/-- What one call of a side sends within the pair. -/
theorem addressed_call (placed : links.Places wiring place) (side : Side) (event : Event) :
    addressed (place side) (wiring.messages (place side) event) = [] ∧
      addressed (place side.other) (wiring.messages (place side) event) =
        links.messages side event := by
  cases event with
  | notify position port action =>
      cases action with
      | notifyInput =>
          simp only [Wiring.messages, addressed_map]
          cases side with
          | upstream =>
              rw [List.count_eq_zero.mpr (placed.noLoop port).1]
              exact ⟨rfl, congrArg (List.replicate · _) (placed.toDownstream port)⟩
          | downstream =>
              rw [List.count_eq_zero.mpr (placed.ahead port _),
                List.count_eq_zero.mpr (placed.ahead port _)]
              exact ⟨rfl, rfl⟩
      | notifyOutput =>
          simp only [Wiring.messages, addressed_map]
          cases side with
          | upstream =>
              rw [List.count_eq_zero.mpr (placed.behind port _),
                List.count_eq_zero.mpr (placed.behind port _)]
              exact ⟨rfl, rfl⟩
          | downstream =>
              rw [List.count_eq_zero.mpr (placed.noLoop port).2]
              exact ⟨rfl, congrArg (List.replicate · _) (placed.toUpstream port)⟩
      | _ => cases side <;> exact ⟨rfl, rfl⟩
  | _ => cases side <;> exact ⟨rfl, rfl⟩

/-- What an iteration of one side sends within the pair. -/
theorem addressed_messages (placed : links.Places wiring place) (side : Side)
    (events : List Event) :
    addressed (place side) (events.flatMap (wiring.messages (place side))) = [] ∧
      addressed (place side.other) (events.flatMap (wiring.messages (place side))) =
        events.flatMap (links.messages side) := by
  unfold addressed
  rw [List.filterMap_flatMap, List.filterMap_flatMap]
  exact ⟨List.flatMap_eq_nil_iff.mpr fun event _ => (addressed_call placed side event).1,
    List.flatMap_congr fun event _ => (addressed_call placed side event).2⟩

/-! ## What the other one sees -/

/-- A reader that has not moved is the same reader. -/
theorem reader_of_still {g g' : Group} (still : g'.ledger = g.ledger) (same : SameWiring g g')
    (p i : Nat) : g'.reader p i = g.reader p i := by
  have total := congrArg (fun ledger => ledger.released (p, i)) still
  simp only [Group.ledger] at total
  have limits := same p i
  cases before : g.reader p i with
  | none =>
      rw [before, Option.map_none] at limits
      exact Option.map_eq_none_iff.mp limits
  | some r =>
      rw [before, Option.map_some] at limits
      obtain ⟨r', after, equal⟩ := Option.map_eq_some_iff.mp limits
      rw [before, after] at total
      obtain ⟨source, read, most, least⟩ := r
      obtain ⟨source', read', most', least'⟩ := r'
      cases total
      cases equal
      exact after

/-- Readers that have not moved leave the totals of every buffer as they are. -/
theorem readsOf_of_still {g g' : Group} (still : g'.ledger = g.ledger) (same : SameWiring g g')
    (wires : g'.blocks.map Block.wires = g.blocks.map Block.wires) (k : Nat) :
    Block.readsOf g'.blocks k = Block.readsOf g.blocks k := by
  have ends : (g'.blocks.map Block.attached).map Prod.fst =
      (g.blocks.map Block.attached).map Prod.fst := by
    rw [List.map_map, List.map_map]
    apply List.ext_getElem?
    intro p
    have wire := congrArg (fun all => all[p]?) wires
    simp only [List.getElem?_map] at wire ⊢
    cases here : g.blocks[p]? with
    | none =>
        rw [here, Option.map_none] at wire
        rw [Option.map_eq_none_iff.mp wire]
    | some b =>
        rw [here, Option.map_some] at wire
        obtain ⟨b', here', ends⟩ := Option.map_eq_some_iff.mp wire
        rw [here', Option.map_some, Option.map_some]
        refine congrArg some (List.ext_getElem? fun i => ?_)
        have port := congrArg (fun both => both.1[i]?) ends
        have reader := reader_of_still still same p i
        simp only [Group.reader, Group.input, here, here', Option.bind_some] at reader
        simp only [Block.wires, Function.comp_apply, Block.attached, List.getElem?_map] at port ⊢
        cases listed : b.inputs[i]? with
        | none =>
            rw [listed, Option.map_none] at port
            rw [Option.map_eq_none_iff.mp port]
        | some w =>
            rw [listed, Option.map_some] at port
            obtain ⟨w', listed', _⟩ := Option.map_eq_some_iff.mp port
            rw [listed, listed', Option.bind_some, Option.bind_some] at reader
            rw [listed', Option.map_some, Option.map_some, reader]
  rw [Block.readsOf_eq, Block.readsOf_eq, List.flatMap_def, ends, ← List.flatMap_def]

/-- An iteration that moves no index does not show in the group of another scheduler. -/
theorem Iterated.group_other {iteration : Iteration}
    (iterated : Iterated opts wiring f u iteration f') (wires : SameWires f f')
    (returns : runOneIteration answers (f.group u) = .ok iteration)
    (still : iteration.group.ledger = (f.group u).ledger) (other : v ≠ u) :
    f'.group v = f.group v := by
  have own : (f'.schedulers u).blocks = iteration.group.blocks :=
    congrArg Group.blocks iterated.group
  have buffers : f'.buffers = f.buffers := by
    funext k
    have total : (iteration.group.buffers k).totalWritten = (f.buffers k).totalWritten :=
      congrArg (fun ledger => ledger.published k) still
    rw [iterated.buffers, total]
  have reads (w : Fin n) (k : Nat) : Block.readsOf (f'.schedulers w).blocks k =
      Block.readsOf (f.schedulers w).blocks k := by
    by_cases here : w = u
    · subst here
      have same := wires w
      rw [own] at same ⊢
      exact readsOf_of_still still (wiring_iteration returns) same k
    · rw [iterated.others w here]
  unfold Flowgraph.group outsideReads
  simp only [reads, buffers, iterated.others v other]

/-! ## Steps and runs -/

/-- What holds of one side and of the other holds of both. -/
theorem forall_sides {holds : Side → Prop} (side : Side) (here : holds side)
    (there : holds side.other) : ∀ s, holds s := by
  intro s
  cases side <;> cases s <;> assumption

private theorem other_ne (placed : links.Places wiring place) (side : Side) :
    place side.other ≠ place side := by
  cases side with
  | upstream => exact placed.apart.symm
  | downstream => exact placed.apart

/-- One side has taken a step and the other one has received its messages. -/
theorem Shows.after (shows : Shows place p f) {side : Side} {w : Worker}
    {msgs : List SchedulerMessage} (here : p'.worker side = w)
    (there : p'.worker side.other = (p.worker side.other).receive msgs)
    (thread : (f'.schedulers (place side)).thread = w.thread)
    (group : f'.group (place side) = w.group)
    (between : (f'.schedulers (place side)).point = .start ∧
      (f'.schedulers (place side)).sending = [])
    (received : f'.schedulers (place side.other) = { f.schedulers (place side.other) with
      thread := received (f.schedulers (place side.other)).thread msgs })
    (sees : f'.group (place side.other) = f.group (place side.other)) : Shows place p' f' := by
  refine ⟨forall_sides side ?_ ?_, forall_sides side ?_ ?_, forall_sides side between.1 ?_,
    forall_sides side between.2 ?_⟩
  · rw [here, thread]
  · rw [there, receive_eq, received, shows.thread]
  · rw [here, group]
  · rw [there, receive_eq, sees, shows.group]
  · rw [received]
    exact shows.point side.other
  · rw [received]
    exact shows.sending side.other

/-- Turns of the scheduler on one side match an iteration of its worker. -/
theorem Shows.iterate (shows : Shows place p f) (placed : links.Places wiring place)
    {side : Side} {iteration : Iteration} {thread : ThreadWrapper.State}
    (due : (p.worker side).thread.aboutToIterate = true)
    (returns : runOneIteration answers (p.worker side).group = .ok iteration)
    (still : iteration.group.ledger = (p.worker side).group.ledger)
    (body : threadBody (opts (place side)) (p.worker side).thread iteration.status = some thread)
    (here : p'.worker side = ⟨thread, iteration.group⟩)
    (there : p'.worker side.other =
      (p.worker side.other).receive (iteration.events.flatMap (links.messages side))) :
    ∃ taken f', Transition.Run (Step opts wiring) f taken f' ∧
      (∀ t ∈ taken, t.label = .turn (place side) answers) ∧ Shows place p' f' := by
  rw [← shows.thread] at due body
  rw [← shows.group] at returns still
  obtain ⟨taken, f', run, own, iterated⟩ : ∃ taken f', Transition.Run (Step opts wiring) f
      taken f' ∧ _ ∧ Iterated opts wiring f (place side) iteration f' :=
    run_of_iteration due (shows.point side) (shows.sending side) returns
  have other := other_ne placed side
  obtain ⟨kept, sent⟩ := addressed_messages placed side iteration.events
  have steps := iterated.thread
  rw [kept, received_nil] at steps
  have received := iterated.others _ other
  rw [sent] at received
  exact ⟨taken, f', run, own, shows.after here there (Option.some.inj (steps.symm.trans body))
    iterated.group ⟨iterated.point, iterated.sending⟩ received
    (iterated.group_other (sameWires_of_run run) returns still other)⟩

/-- One turn of the scheduler matches a step of its worker's thread. -/
theorem Shows.idle (shows : Shows place p f) (placed : links.Places wiring place)
    {side : Side} {thread : ThreadWrapper.State}
    (idle : ¬ (p.worker side).thread.aboutToIterate = true)
    (body : threadBody (opts (place side)) (p.worker side).thread .ready = some thread)
    (here : p'.worker side = { p.worker side with thread })
    (there : p'.worker side.other = (p.worker side.other).receive []) :
    ∃ taken f', Transition.Run (Step opts wiring) f taken f' ∧
      (∀ t ∈ taken, t.label = .turn (place side) answers) ∧ Shows place p' f' := by
  rw [← shows.thread] at idle body
  have step : Step opts wiring f (.turn (place side) answers)
      (f.setThread (place side) thread) := by
    simp only [Step, Flowgraph.next, turn, idle, body, Bool.false_eq_true, ↓reduceIte,
      Option.map_some]
  have inside (v : Fin n) : SameInside f (f.setThread (place side) thread) v :=
    sameInside_setScheduler f (place side) v rfl rfl
  have groups (v : Fin n) : (f.setThread (place side) thread).group v = f.group v :=
    group_of_same (fun w => (inside w).1) rfl
  have own : (f.setThread (place side) thread).schedulers (place side) =
      { f.schedulers (place side) with thread } := setScheduler_self ..
  have others : (f.setThread (place side) thread).schedulers (place side.other) =
      f.schedulers (place side.other) := setScheduler_of_ne f _ (other_ne placed side)
  refine ⟨_, _, .single step, fun t listed => ?_, shows.after here there ?_ ?_ ?_ ?_ (groups _)⟩
  · cases List.mem_singleton.mp listed
    rfl
  · rw [own]
  · rw [groups, shows.group]
  · rw [own]
    exact ⟨shows.point side, shows.sending side⟩
  · rw [others, received_nil]

/-- **A step of the pair.** Turns of the scheduler on the same side match it. -/
theorem Shows.step (shows : Shows place p f) (placed : links.Places wiring place)
    {turn : Turn} (step : Pair.Step (fun side => opts (place side)) links p turn p')
    (fruitless : Pair.Fruitless ⟨p, turn, p'⟩) :
    ∃ taken f', Transition.Run (Step opts wiring) f taken f' ∧
      (∀ t ∈ taken, t.label = .turn (place turn.side) turn.answers) ∧ Shows place p' f' := by
  obtain ⟨side, answers⟩ := turn
  obtain ⟨⟨w, events⟩, moves, after⟩ := Option.map_eq_some_iff.mp step
  have here : p'.worker side = w := by
    rw [← after]
    cases side <;> rfl
  have there : p'.worker side.other =
      (p.worker side.other).receive (events.flatMap (links.messages side)) := by
    rw [← after]
    cases side <;> rfl
  unfold Worker.turn at moves
  split at moves
  · rename_i due
    split at moves
    · cases moves
    · rename_i iteration returns
      obtain ⟨thread, body, same⟩ := Option.map_eq_some_iff.mp moves
      cases same
      exact shows.iterate placed due returns (fruitless iteration ⟨due, returns⟩).1 body here there
  · rename_i idle
    obtain ⟨thread, body, same⟩ := Option.map_eq_some_iff.mp moves
    cases same
    exact shows.idle placed idle body here there

/-- **The pair abstracts the schedulers.** -/
theorem run_of_pair {taken : List (Transition.Taken Pair Turn)}
    (placed : links.Places wiring place)
    (run : Transition.Run (Pair.Step (fun side => opts (place side)) links) p taken p')
    (fruitless : ∀ t ∈ taken, Pair.Fruitless t) (shows : Shows place p f) :
    ∃ taken' f', Transition.Run (Step opts wiring) f taken' f' ∧
      (∀ t ∈ taken', ∃ side answers, t.label = .turn (place side) answers) ∧
      Shows place p' f' := by
  refine run.matched (Shows place)
    (fun t => ∃ side answers, t.label = Act.turn (place side) answers) shows
    fun transition member step f shows => ?_
  obtain ⟨taken', f', turns, own, shown⟩ := shows.step placed step (fruitless transition member)
  exact ⟨taken', f', turns, fun t listed => ⟨_, _, own t listed⟩, shown⟩

/-! ## Schedulers that keep each other awake -/

section Lacking

variable {g : Side → Group} {first second : List ThreadWrapper.Record}

/-- Two workers over the given groups. -/
def abreast (g : Side → Group) (upstream downstream : List SchedulerMessage)
    (first second : List ThreadWrapper.Record) : Pair :=
  ⟨⟨Pair.between upstream first, g .upstream⟩, ⟨Pair.between downstream second, g .downstream⟩⟩

/-- An iteration that lacks items leaves its group alone and wakes the other worker. -/
def Lacks (g : Side → Group) : Prop :=
  ∀ side, ∃ events, runOneIteration Pair.lackingItems (g side) = .ok ⟨.blkdIn, g side, events⟩ ∧
    events.flatMap (Pair.oneToOne.messages side) = [Pair.wakeUp side]

/-- A worker that lacks items iterates and wakes the other one. -/
theorem Lacks.next {thread : ThreadWrapper.State} {side : Side} (lacks : Lacks g)
    (due : (p.worker side).thread.aboutToIterate = true) (sees : (p.worker side).group = g side)
    (steps : threadBody {} (p.worker side).thread .blkdIn = some thread) :
    Pair.next (fun _ => {}) Pair.oneToOne p ⟨side, Pair.lackingItems⟩ =
      some ((p.replace ⟨thread, g side⟩ side).replace
        (((p.replace ⟨thread, g side⟩ side).worker side.other).receive [Pair.wakeUp side])
        side.other) := by
  obtain ⟨events, returns, sent⟩ := lacks side
  rw [Pair.next, Worker.turn, if_pos due, sees, returns]
  simp only [steps, Option.map_some, sent]

/-- Each of the two workers wakes the other one once. -/
theorem Lacks.round (lacks : Lacks g) (first second : List ThreadWrapper.Record) :
    ∃ taken, Transition.Run (Pair.Step (fun _ => {}) Pair.oneToOne)
      (abreast g [Pair.wakeUp .downstream] [] first second) taken
      (abreast g [Pair.wakeUp .downstream] [] (Pair.passed (Pair.wakeUp .downstream) first)
        (Pair.passed (Pair.wakeUp .upstream) second)) ∧
      ∀ t ∈ taken, t.label.answers = Pair.lackingItems := by
  obtain ⟨front, toMiddle, asked, _⟩ := @Pair.pass_of_follow (fun _ => {}) Pair.oneToOne
    (abreast g [Pair.wakeUp .downstream] [] first second)
    (abreast g [] [Pair.wakeUp .upstream] (Pair.passed (Pair.wakeUp .downstream) first) second) _
    ⟨.upstream, Pair.lackingItems⟩ 7 rfl rfl (@Lacks.next _ g
      (Pair.between [] (Pair.passed (Pair.wakeUp .downstream) first)) .upstream lacks rfl rfl rfl)
  obtain ⟨back, toEnd, answered, _⟩ := @Pair.pass_of_follow (fun _ => {}) Pair.oneToOne
    (abreast g [] [Pair.wakeUp .upstream] (Pair.passed (Pair.wakeUp .downstream) first) second)
    (abreast g [Pair.wakeUp .downstream] [] (Pair.passed (Pair.wakeUp .downstream) first)
      (Pair.passed (Pair.wakeUp .upstream) second)) _
    ⟨.downstream, Pair.lackingItems⟩ 7 rfl rfl (@Lacks.next _ g
      (Pair.between [] (Pair.passed (Pair.wakeUp .upstream) second)) .downstream lacks rfl rfl rfl)
  refine ⟨front ++ back, toMiddle.append toEnd, List.forall_mem_append.mpr ⟨fun t member => ?_,
    fun t member => ?_⟩⟩
  · rw [asked t member]
  · rw [answered t member]

/-- Two workers that lack items go on waking one another for as long as one likes. -/
theorem Lacks.rounds (lacks : Lacks g) (n : Nat) (first second : List ThreadWrapper.Record) :
    ∃ first' second' taken, Transition.Run (Pair.Step (fun _ => {}) Pair.oneToOne)
      (abreast g [Pair.wakeUp .downstream] [] first second) taken
      (abreast g [Pair.wakeUp .downstream] [] first' second') ∧
      (∀ t ∈ taken, t.label.answers = Pair.lackingItems) ∧ n ≤ first'.length := by
  induction n generalizing first second with
  | zero =>
      exact ⟨_, _, [], .nil _, fun t absurd => (List.not_mem_nil absurd).elim, Nat.zero_le _⟩
  | succ n ih =>
      obtain ⟨first', second', front, run, asked, long⟩ := ih first second
      obtain ⟨back, one, answered⟩ := lacks.round first' second'
      refine ⟨_, _, front ++ back, run.append one,
        List.forall_mem_append.mpr ⟨asked, answered⟩, ?_⟩
      exact Nat.le_succ_of_le (Nat.succ_le_succ long)

/-- Nothing moves while the workers wake each other. -/
theorem Lacks.fruitless {taken : List (Transition.Taken Pair Turn)} (lacks : Lacks g)
    (run : Transition.Run (Pair.Step (fun _ => {}) Pair.oneToOne) p taken p')
    (start : ∀ side, (p.worker side).group = g side)
    (answered : ∀ t ∈ taken, t.label.answers = Pair.lackingItems) :
    ∀ t ∈ taken, Pair.Fruitless t := by
  have along := (run.invariant (fun p => ∀ side, (p.worker side).group = g side) start ?_).2
  · intro t member iteration runs
    obtain ⟨events, returns, _⟩ := lacks t.label.side
    have here := runs.returns
    have sees := (along t member).1 t.label.side
    rw [Pair.groupOf, sees, answered t member, returns] at here
    cases here
    rw [Pair.groupOf, sees, answered t member]
    exact ⟨rfl, fun _ _ => ⟨rfl, rfl⟩⟩
  · intro t member step same
    obtain ⟨source, ⟨side, answers⟩, target⟩ := t
    obtain ⟨⟨w, calls⟩, moves, result⟩ := Option.map_eq_some_iff.mp step
    obtain ⟨_, runs⟩ := Pair.turn_eq_some moves
    obtain ⟨events, fixed, _⟩ := lacks side
    have kept : w.group = g side := by
      rcases runs with ⟨_, iteration, returns, after, _⟩ | ⟨_, after, _⟩
      · change runOneIteration answers (source.worker side).group = .ok iteration at returns
        have asked : answers = Pair.lackingItems := answered _ member
        rw [same, asked, fixed] at returns
        cases returns
        exact after
      · exact after.trans (same _)
    have others : (source.worker side.other).group = g side.other := same side.other
    rw [← result]
    refine forall_sides side ?_ ?_
    · cases side <;> exact kept
    · cases side <;> exact others

end Lacking

/-- Two schedulers in a row that take batches of eight, with four items at each. -/
def halfBatches : Flowgraph 2 where
  schedulers := fun u => {
    thread := Pair.between (if u.val = 0 then [.action .notifyOutput] else []) []
    blocks := [{ kind := .triton true, outputMultiple := some 8
                 inputs := [{ bufp := some ⟨u, 0, 0, 0⟩ }]
                 outputs := [{ bufp := some (u + 1) }] }] }
  buffers := fun k => { bufSize := 16, totalWritten := if k < 2 then 4 else 0 }

def inOrder : Side → Fin 2
  | .upstream => ⟨0, Nat.two_pos⟩
  | .downstream => ⟨1, Nat.one_lt_two⟩

private theorem inOrder_placed : Pair.oneToOne.Places oneToNext inOrder := by
  refine ⟨by decide, fun _ => rfl, fun _ => rfl, fun _ _ => List.not_mem_nil,
    fun _ _ => List.not_mem_nil, fun _ => ?_⟩
  simp [oneToNext, inOrder]

private theorem halfBatches_lacks : Lacks fun side => halfBatches.group (inOrder side) := by
  intro side
  have returns : ∃ events, runOneIteration Pair.lackingItems (halfBatches.group (inOrder side)) =
      .ok ⟨.blkdIn, { halfBatches.group (inOrder side) with
        buffers := postWrites 0 [inOrder side + 1] (halfBatches.group (inOrder side)).buffers },
        events⟩ ∧ events.flatMap (Pair.oneToOne.messages side) = [Pair.wakeUp side] := by
    cases side <;> exact ⟨_, rfl, rfl⟩
  rw [postWrites_zero] at returns
  exact returns

private theorem halfBatches_shows : Shows inOrder
    (abreast (fun side => halfBatches.group (inOrder side)) [Pair.wakeUp .downstream] [] [] [])
    halfBatches := by
  refine ⟨fun side => ?_, fun side => ?_, fun _ => rfl, fun _ => rfl⟩
  · cases side <;> rfl
  · cases side <;> rfl

/-- One notification keeps the two schedulers iterating without end, and no item moves. -/
theorem halfBatches_never_rest : ¬ ∃ bound, ∀ taken f,
    Transition.Run (Step (fun _ => {}) oneToNext) halfBatches taken f →
      (∀ side, f.group (inOrder side) = halfBatches.group (inOrder side)) →
        (f.schedulers 0).thread.log.length ≤ bound := by
  rintro ⟨bound, bounds⟩
  obtain ⟨first, second, taken, run, answered, long⟩ :=
    halfBatches_lacks.rounds (bound + 1) [] []
  have fruitless := halfBatches_lacks.fruitless run (fun side => by cases side <;> rfl) answered
  obtain ⟨turns, f, run, _, shows⟩ : ∃ turns f, Transition.Run (Step (fun _ => {}) oneToNext)
      halfBatches turns f ∧ _ ∧ Shows inOrder _ f :=
    run_of_pair inOrder_placed run fruitless halfBatches_shows
  have few := bounds turns f run fun side => by
    rw [shows.group]
    cases side <;> rfl
  have log : (f.schedulers 0).thread.log = first :=
    congrArg ThreadWrapper.State.log (shows.thread .upstream)
  rw [log] at few
  omega

end Flowgraph

end TorchDsp
