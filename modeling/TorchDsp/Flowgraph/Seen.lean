import TorchDsp.Executor.Notifications
import TorchDsp.Flowgraph.Wakeups

/-! # What a waiting scheduler has seen

The port that publishes a buffer notifies the schedulers that read it, and the
port that releases it those that write it. As no notification is lost, whatever a
scheduler can see through connected ports stands, when it waits, as it stood when
its latest iteration began (`TorchDsp.Flowgraph.waiting_has_seen`). If a check has
ended that iteration, the check would fail again
(`TorchDsp.Flowgraph.waiting_stays_blocked`).
-/

namespace TorchDsp

open GraphExecutor

namespace Group

variable {g g' : Group}

/-- The buffer of an output port is among those the blocks write. -/
theorem mem_outputBuffers {p i k : Nat} (writes : g.outputBuffer p i = some k) :
    k ∈ outputBuffers g.blocks := by
  obtain ⟨w, port, buffer⟩ := Option.bind_eq_some_iff.mp writes
  obtain ⟨b, present, here⟩ := Option.bind_eq_some_iff.mp port
  exact List.mem_flatMap.mpr ⟨b, List.mem_of_getElem? present,
    List.mem_filterMap.mpr ⟨w, List.mem_of_getElem? here, buffer⟩⟩

/-- A port with the same wire writes the same buffer. -/
theorem outputBuffer_of_wires (same : g'.blocks.map Block.wires = g.blocks.map Block.wires)
    (p i : Nat) : g'.outputBuffer p i = g.outputBuffer p i := by
  have wires (g : Group) : g.outputBuffer p i =
      ((g.blocks.map Block.wires)[p]?.bind fun ends => ends.2[i]?).bind id := by
    unfold outputBuffer output
    rw [List.getElem?_map, Option.bind_map]
    cases g.blocks[p]? with
    | none => rfl
    | some b =>
        rw [Option.bind_some, Option.bind_some, Function.comp_apply, Block.wires,
          List.getElem?_map, Option.bind_map]
        rfl
  rw [wires, wires, same]

private theorem source_of_wires (same : g'.blocks.map Block.wires = g.blocks.map Block.wires)
    (p i : Nat) :
    (g'.reader p i).map BufferReader.source = (g.reader p i).map BufferReader.source := by
  have wires (g : Group) : (g.reader p i).map BufferReader.source =
      ((g.blocks.map Block.wires)[p]?.bind fun ends => ends.1[i]?).bind id := by
    unfold reader input
    rw [List.getElem?_map, Option.bind_map]
    cases g.blocks[p]? with
    | none => rfl
    | some b =>
        rw [Option.bind_some, Option.bind_some, Function.comp_apply, Block.wires,
          List.getElem?_map, Option.bind_map]
        cases b.inputs[i]? <;> rfl
  rw [wires, wires, same]

end Group

namespace Flowgraph

variable {n : Nat} {opts : Fin n → SchedulerTritonOptions} {wiring : Wiring n}
  {f f' f₀ : Flowgraph n} {act : Act n} {u d : Fin n} {k : Nat}

/-! ## Connected buffers -/

/-- An output port of the last block of `u` writes the buffer and is connected to
`d`; nobody else writes it. -/
structure Feeds (wiring : Wiring n) (f : Flowgraph n) (u d : Fin n) (k : Nat) : Prop where
  connected : ∃ i, (f.group u).outputBuffer ((f.schedulers u).blocks.length - 1) i = some k ∧
    d ∈ wiring.readers u i
  sole : ∀ v, k ∈ outputBuffers (f.schedulers v).blocks → v = u

/-- An input port of the first block of `u` reads the buffer and is connected to
`d`. -/
def Empties (wiring : Wiring n) (f : Flowgraph n) (u d : Fin n) (k : Nat) : Prop :=
  ∃ i r, (f.group u).reader 0 i = some r ∧ r.source = k ∧ d ∈ wiring.writers u i

/-- The wires of all blocks are what they were. -/
def SameWires (f f' : Flowgraph n) : Prop :=
  ∀ u, (f'.schedulers u).blocks.map Block.wires = (f.schedulers u).blocks.map Block.wires

/-- The blocks of a scheduler and where its iteration stands are what they were. -/
def SameInside (f f' : Flowgraph n) (v : Fin n) : Prop :=
  (f'.schedulers v).blocks = (f.schedulers v).blocks ∧
    (f'.schedulers v).point = (f.schedulers v).point

/-- A change of the thread or the messages of one scheduler is not seen inside another. -/
theorem sameInside_setScheduler (f : Flowgraph n) (u v : Fin n) {s : Scheduler n}
    (blocks : s.blocks = (f.schedulers u).blocks) (point : s.point = (f.schedulers u).point) :
    SameInside f (f.setScheduler u s) v := by
  unfold SameInside
  rw [schedulers_setScheduler]
  split
  · rename_i here
    rw [here]
    exact ⟨blocks, point⟩
  · exact ⟨rfl, rfl⟩

/-- An iteration goes on in the phases of its scheduler only. -/
theorem Moved.inside (moved : Moved opts wiring f act f') (v : Fin n) :
    SameInside f f' v ∨
      ((f'.schedulers v).blocks = (f.schedulers v).blocks ∧ (f'.schedulers v).point = .start) ∨
      ∃ answers g point, act = .turn v answers ∧
        (∀ status events, (f.schedulers v).point ≠ .returned status events) ∧
        resume answers (f.group v) (f.schedulers v).point = .ok (g, point) ∧
        f' = f.advance wiring v g point := by
  cases moved with
  | deliver u answers iterates w msg rest sends f₁ popped thread arrives =>
      subst popped
      obtain ⟨blocks, point⟩ := sameInside_setScheduler
        (f.setScheduler u { f.schedulers u with sending := rest }) w v
        (s := { (f.setScheduler u { f.schedulers u with sending := rest }).schedulers w with
          thread }) rfl rfl
      obtain ⟨before, stood⟩ := sameInside_setScheduler f u v
        (s := { f.schedulers u with sending := rest }) rfl rfl
      exact Or.inl ⟨blocks.trans before, point.trans stood⟩
  | finish u answers iterates sent status events returned thread steps =>
      by_cases same : v = u
      · subst same
        rw [setScheduler_self]
        exact Or.inr (Or.inl ⟨rfl, rfl⟩)
      · left
        rw [SameInside, setScheduler_of_ne f _ same]
        exact ⟨rfl, rfl⟩
  | phase u answers iterates sent inside g point resumes =>
      by_cases same : v = u
      · subst same
        exact Or.inr (Or.inr ⟨answers, g, point, rfl, inside, resumes, rfl⟩)
      · left
        rw [SameInside, advance_of_ne f g point same]
        exact ⟨rfl, rfl⟩
  | thread u act move thread idle steps => exact Or.inl (sameInside_setScheduler f u v rfl rfl)
  | outside act k buffer foreign grown limits reads => exact Or.inl ⟨rfl, rfl⟩

/-- No step rewires a block. -/
theorem Moved.sameWires (moved : Moved opts wiring f act f') : SameWires f f' := by
  intro v
  rcases moved.inside v with ⟨same, _⟩ | ⟨same, _⟩ | ⟨answers, g, point, _, _, resumes, rfl⟩
  · rw [same]
  · rw [same]
  · rw [advance_self]
    exact (effect_of_resume resumes).wires

/-- Every scheduler keeps its number of blocks. -/
theorem SameWires.length (same : SameWires f f') (u : Fin n) :
    (f'.schedulers u).blocks.length = (f.schedulers u).blocks.length := by
  have lengths := congrArg List.length (same u)
  rwa [List.length_map, List.length_map] at lengths

/-- Every scheduler goes on writing the same buffers. -/
theorem SameWires.outputBuffers (same : SameWires f f') (u : Fin n) :
    outputBuffers (f'.schedulers u).blocks = outputBuffers (f.schedulers u).blocks :=
  Block.outputBuffers_of_wires (same u)

/-- A scheduler goes on feeding those it feeds. -/
theorem SameWires.feeds (same : SameWires f f') (feeds : Feeds wiring f u d k) :
    Feeds wiring f' u d k := by
  obtain ⟨⟨i, writes, connected⟩, sole⟩ := feeds
  refine ⟨⟨i, ?_, connected⟩, fun v written => sole v ?_⟩
  · rw [same.length]
    rw [← writes]
    exact Group.outputBuffer_of_wires (same u) _ i
  · rw [← same.outputBuffers]
    exact written

/-- An input port goes on reading the same buffer. -/
theorem SameWires.source (same : SameWires f f') (u : Fin n) (i : Nat) :
    ((f'.group u).reader 0 i).map BufferReader.source =
      ((f.group u).reader 0 i).map BufferReader.source :=
  Group.source_of_wires (same u) 0 i

/-- A scheduler goes on emptying the buffers it empties. -/
theorem SameWires.empties (same : SameWires f f') (empties : Empties wiring f u d k) :
    Empties wiring f' u d k := by
  obtain ⟨i, r, reads, source, connected⟩ := empties
  have both := same.source u i
  rw [reads, Option.map_some] at both
  obtain ⟨r', reads', source'⟩ := Option.map_eq_some_iff.mp both
  exact ⟨i, r', reads', source'.trans source, connected⟩

/-! ## Changes wake the other end -/

private theorem mem_notifyPorts {position count port : Nat} (action : SchedulerAction)
    (listed : port < count) : .notify position port action ∈ notifyPorts position count action :=
  List.mem_map_of_mem (f := fun port => Event.notify position port action)
    (List.mem_range.mpr listed)

/-- A buffer is written in a phase of a scheduler that writes it, or outside. -/
theorem Moved.written (moved : Moved opts wiring f act f')
    (changed : (f'.buffers k).totalWritten ≠ (f.buffers k).totalWritten) :
    (f.Foreign k ∧ f.itemsHeld k + ((f'.buffers k).totalWritten - (f.buffers k).totalWritten) ≤
      (f.buffers k).bufSize) ∨
    ∃ v answers g point, act = .turn v answers ∧
      (∀ status events, (f.schedulers v).point ≠ .returned status events) ∧
      resume answers (f.group v) (f.schedulers v).point = .ok (g, point) ∧
      f' = f.advance wiring v g point ∧ k ∈ outputBuffers (f.schedulers v).blocks := by
  cases moved with
  | deliver u answers iterates v msg rest sends f₁ popped thread arrives =>
      subst popped
      exact (changed rfl).elim
  | finish | thread => exact (changed rfl).elim
  | outside act j buffer foreign grown limits reads =>
      by_cases same : k = j
      · subst same
        dsimp only at changed ⊢
        rw [Function.update_self] at changed ⊢
        exact Or.inl (foreign changed)
      · exact (changed (by dsimp only; rw [Function.update_of_ne same])).elim
  | phase v answers iterates sent inside g point resumes =>
      exact Or.inr ⟨v, answers, g, point, rfl, inside, resumes, rfl,
        Classical.byContradiction fun other =>
          changed (((effect_of_resume resumes).totalWritten k).2 other)⟩

/-- What a scheduler publishes wakes the schedulers it feeds. -/
theorem wakeful_of_published (moved : Moved opts wiring f act f') (feeds : Feeds wiring f u d k)
    (changed : (f'.buffers k).totalWritten ≠ (f.buffers k).totalWritten) : f'.Wakeful d := by
  obtain ⟨⟨i, writes, connected⟩, sole⟩ := feeds
  obtain ⟨w, port, _⟩ := Option.bind_eq_some_iff.mp writes
  obtain ⟨last, present, here⟩ := Option.bind_eq_some_iff.mp port
  rcases moved.written changed with ⟨foreign, _⟩ |
    ⟨v, answers, g, point, _, _, resumes, rfl, listed⟩
  · exact (foreign u (Group.mem_outputBuffers writes)).elim
  · obtain rfl := sole v listed
    cases effect_of_resume resumes with
    | still _ buffers => exact (changed (congrArg (fun all => (all k).totalWritten) buffers)).elim
    | releases l _ _ buffers =>
        exact (changed (congrArg (fun all => (all k).totalWritten) buffers)).elim
    | publishes l stands blocks w atEnd buffers published =>
        refine Or.inl ⟨v, .action .notifyInput, ?_, rfl⟩
        rw [advance_self, stands, published]
        dsimp only [Point.events]
        rw [List.drop_left]
        refine List.mem_flatMap.mpr ⟨.notify ((f.schedulers v).blocks.length - 1) i .notifyInput,
          mem_notifyPorts _ ?_, List.mem_map_of_mem connected⟩
        change i < (f.schedulers v).blocks.getLast?.elim 0 fun b => b.outputs.length
        rw [List.getLast?_eq_getElem?]
        change (f.schedulers v).blocks[(f.schedulers v).blocks.length - 1]? = some last at present
        rw [present, Option.elim_some]
        exact (List.getElem?_eq_some_iff.mp here).1

/-- What a scheduler releases wakes the schedulers that wait for the room. -/
theorem wakeful_of_released (moved : Moved opts wiring f act f') (empties : Empties wiring f u d k)
    (changed : Block.readsOf (f'.schedulers u).blocks k ≠
      Block.readsOf (f.schedulers u).blocks k) : f'.Wakeful d := by
  obtain ⟨i, r, reads, _, connected⟩ := empties
  obtain ⟨w, port, _⟩ := Option.bind_eq_some_iff.mp reads
  obtain ⟨first, present, here⟩ := Option.bind_eq_some_iff.mp port
  rcases moved.inside u with ⟨same, _⟩ | ⟨same, _⟩ | ⟨answers, g, point, _, _, resumes, rfl⟩
  · exact (changed (by rw [same])).elim
  · exact (changed (by rw [same])).elim
  · rw [advance_self] at changed
    cases effect_of_resume resumes with
    | still attached => exact (changed (Block.readsOf_of_attached attached k)).elim
    | publishes l _ blocks => exact (changed (by rw [blocks]; rfl)).elim
    | releases l stands blocks buffers released =>
        refine Or.inl ⟨u, .action .notifyOutput, ?_, rfl⟩
        rw [advance_self, stands, released]
        dsimp only [Point.events]
        rw [List.drop_left]
        refine List.mem_flatMap.mpr ⟨.notify 0 i .notifyOutput, mem_notifyPorts _ ?_,
          List.mem_map_of_mem connected⟩
        change (f.schedulers u).blocks[0]? = some first at present
        have atStart : g.blocks.head? = some (postReads first) := by
          rw [blocks, List.head?_map, List.head?_eq_getElem?]
          exact congrArg (Option.map postReads) present
        rw [atStart, Option.elim_some]
        exact Nat.lt_of_lt_of_eq (List.getElem?_eq_some_iff.mp here).1 (List.length_map _).symm

/-! ## Along a run -/

/-- The thread waits for a message and none is on its way to it. -/
structure Asleep (f : Flowgraph n) (d : Fin n) : Prop where
  waits : (f.schedulers d).thread.Waits
  arrived : ∀ u msg, (d, msg) ∉ (f.schedulers u).sending

private theorem Asleep.not_wakeful (asleep : f.Asleep d) (orderly : f.Orderly) : ¬ f.Wakeful d := by
  rintro (⟨u, msg, sends, _⟩ | ⟨msg, queued, _⟩ | ⟨due, _⟩)
  · exact asleep.arrived u msg sends
  · rw [asleep.waits.2.2] at queued
    cases queued
  · exact (orderly.patient d).not_due asleep.waits due

section Runs

variable {taken front back : List (Transition.Taken (Flowgraph n) (Act n))}
  {t : Transition.Taken (Flowgraph n) (Act n)}

/-- A flowgraph in order stays so along every run. -/
theorem orderly_of_run (run : Transition.Run (Step opts wiring) f taken f') (orderly : f.Orderly) :
    f'.Orderly :=
  run.invariant_of_step Orderly orderly fun _ _ _ step orderly => orderly.step step.moved

/-- No run rewires a block. -/
theorem sameWires_of_run (run : Transition.Run (Step opts wiring) f taken f') : SameWires f f' :=
  run.invariant_of_step (SameWires f) (fun _ => rfl) fun _ _ _ step same u =>
    (step.moved.sameWires u).trans (same u)

/-- A scheduler that is woken begins an iteration before it sleeps. -/
theorem begins_before_asleep (run : Transition.Run (Step opts wiring) f taken f')
    (orderly : f.Orderly) (wakeful : f.Wakeful d) (asleep : f'.Asleep d) :
    ∃ t ∈ taken, Begins d t := by
  refine run.exists_of_lost (fun f => f.Orderly ∧ f.Wakeful d) (Begins d) ⟨orderly, wakeful⟩ ?_ ?_
  · intro t member step ⟨orderly, wakeful⟩
    exact (wakeful.step orderly step.moved).imp_right fun after => ⟨orderly.step step.moved, after⟩
  · exact fun ⟨orderly, wakeful⟩ => asleep.not_wakeful orderly wakeful

/-- What wakes `d` whenever it changes has not changed, if `d` sleeps and has begun no
iteration. -/
theorem unchanged_of_asleep {α : Type} (view : Flowgraph n → α)
    (run : Transition.Run (Step opts wiring) f taken f') (orderly : f.Orderly)
    (latest : ∀ t ∈ taken, ¬ Begins d t) (asleep : f'.Asleep d)
    (wakes : ∀ f₁ act f₂, Moved opts wiring f₁ act f₂ → SameWires f f₁ → view f₂ ≠ view f₁ →
      f₂.Wakeful d) : view f' = view f := by
  apply Classical.byContradiction
  intro changed
  obtain ⟨t, member, differs⟩ := run.exists_of_lost (fun f₁ => view f₁ = view f)
    (fun t => view t.target ≠ view t.source) rfl
    (fun t _ _ same => (em (view t.target = view t.source)).symm.imp_right (·.trans same)) changed
  obtain ⟨front, back, rfl⟩ := List.append_of_mem member
  obtain ⟨before, step, after⟩ := run.split_at
  have wakeful := wakes _ _ _ step.moved (sameWires_of_run before) differs
  obtain ⟨t', later, begins⟩ := begins_before_asleep after
    ((orderly_of_run before orderly).step step.moved) wakeful asleep
  exact latest t' (List.mem_append_right _ (List.mem_cons_of_mem _ later)) begins

/-- The totals behind connected ports are those at the last time that `d` began an
iteration, or later. -/
theorem totals_of_asleep (run : Transition.Run (Step opts wiring) f taken f')
    (orderly : f.Orderly) (latest : ∀ t ∈ taken, ¬ Begins d t) (asleep : f'.Asleep d) :
    (∀ u k, Feeds wiring f u d k → (f'.buffers k).totalWritten = (f.buffers k).totalWritten) ∧
      ∀ u k, Empties wiring f u d k →
        Block.readsOf (f'.schedulers u).blocks k = Block.readsOf (f.schedulers u).blocks k := by
  constructor
  · intro u k feeds
    exact unchanged_of_asleep (fun f => (f.buffers k).totalWritten) run orderly latest asleep
      fun _ _ _ moved same => wakeful_of_published moved (same.feeds feeds)
  · intro u k empties
    exact unchanged_of_asleep (fun f => Block.readsOf (f.schedulers u).blocks k) run orderly latest
      asleep fun _ _ _ moved same => wakeful_of_released moved (same.empties empties)

/-- An iteration begins with a phase of its scheduler. -/
theorem Begins.phase (begins : Begins d ⟨f, act, f'⟩) (moved : Moved opts wiring f act f') :
    ∃ answers g point, act = .turn d answers ∧
      resume answers (f.group d) .start = .ok (g, point) ∧ f' = f.advance wiring d g point := by
  obtain ⟨start, inside⟩ := begins
  rcases moved.inside d with ⟨_, same⟩ | ⟨_, same⟩ | ⟨answers, g, point, turn, _, resumes, after⟩
  · exact (inside (same.trans start)).elim
  · exact (inside same).elim
  · exact ⟨answers, g, point, turn, start ▸ resumes, after⟩

/-- To begin an iteration moves nothing. -/
theorem Begins.still (begins : Begins d ⟨f, act, f'⟩) (moved : Moved opts wiring f act f') :
    (∀ k, (f'.buffers k).totalWritten = (f.buffers k).totalWritten) ∧
      ∀ u k, Block.readsOf (f'.schedulers u).blocks k =
        Block.readsOf (f.schedulers u).blocks k := by
  obtain ⟨answers, g, point, _, resumes, rfl⟩ := begins.phase moved
  cases effect_of_resume resumes with
  | releases l worked => cases worked
  | publishes l released => cases released
  | still attached buffers =>
      refine ⟨fun k => congrArg (fun all => (all k).totalWritten) buffers, fun u k => ?_⟩
      by_cases same : u = d
      · subst same
        rw [advance_self]
        exact Block.readsOf_of_attached attached k
      · rw [advance_of_ne f g point same]

/-- **No wake-up is lost.** When a scheduler waits with no message on its way to it,
the totals behind its connected ports are those at the start of its latest
iteration, whatever the others have done in between. -/
theorem waiting_has_seen (starting : f₀.Starting)
    (run : Transition.Run (Step opts wiring) f₀ (front ++ t :: back) f) (asleep : f.Asleep d)
    (begins : Begins d t) (latest : ∀ t' ∈ back, ¬ Begins d t') :
    (∀ u k, Feeds wiring f₀ u d k →
      (f.buffers k).totalWritten = (t.source.buffers k).totalWritten) ∧
    ∀ u k, Empties wiring f₀ u d k →
      Block.readsOf (f.schedulers u).blocks k = Block.readsOf (t.source.schedulers u).blocks k := by
  obtain ⟨before, step, after⟩ := run.split_at
  have orderly := (orderly_of_run before starting.orderly).step step.moved
  have wires : SameWires f₀ t.target := sameWires_of_run (before.snoc step)
  obtain ⟨written, read⟩ := totals_of_asleep after orderly latest asleep
  obtain ⟨moved, released⟩ := begins.still step.moved
  exact ⟨fun u k feeds => (written u k (wires.feeds feeds)).trans (moved k),
    fun u k empties => (read u k (wires.empties empties)).trans (released u k)⟩

end Runs

/-! ## Two schedulers in a row -/

/-- A scheduler that adds: one block, between the buffers `u` and `u + 1`. -/
def adder (u : Fin 2) (minRead : Nat) : Scheduler 2 where
  thread := .initial u
  blocks := [{ kind := .triton true, inputs := [{ bufp := some ⟨u, 0, 0, minRead⟩ }]
               outputs := [{ bufp := some (u + 1) }] }]

/-- Two schedulers that add, the second one at least eight items at once. -/
def inRow (items : Nat) : Flowgraph 2 where
  schedulers := fun u => adder u (if u = 1 then 8 else 0)
  buffers := fun k => { bufSize := 16, totalWritten := if k = 0 then items else 0 }

/-- The first scheduler is connected to the second one. -/
def oneToNext : Wiring 2 where
  readers := fun u _ => if u = 0 then [1] else []
  writers := fun u _ => if u = 1 then [0] else []

/-- No scheduler in the row has run. -/
theorem inRow_starting (items : Nat) : (inRow items).Starting :=
  ⟨fun u => ⟨u, rfl⟩, fun _ => rfl, fun _ => rfl⟩

/-- The first scheduler in the row feeds the second one. -/
theorem inRow_feeds (items : Nat) : Feeds oneToNext (inRow items) 0 1 1 := by
  refine ⟨⟨0, rfl, List.mem_singleton_self 1⟩, fun v listed => ?_⟩
  match v with
  | 0 => rfl
  | 1 => cases List.mem_singleton.mp listed

/-- The first scheduler passes five items on. The second one checks its input in vain
and waits again, while more items arrive at the first one. -/
theorem second_waits : ∃ front t back f,
    Transition.Run (Step (fun _ => {}) oneToNext) (inRow 5) (front ++ t :: back) f ∧
      f.Asleep 1 ∧ Begins 1 t ∧ (∀ t' ∈ back, ¬ Begins 1 t') ∧
      t.label = .turn 1 (moving 5) ∧ (t.target.schedulers 1).point = .returned .blkdIn [] ∧
      (t.source.buffers 1).totalWritten = 5 := by
  have follows : Transition.follow (next (fun _ => {}) oneToNext) (inRow 5)
      ([.openGate 0, .push 0 (.action .notifyAll)] ++ List.replicate 16 (.turn 0 (moving 5)) ++
        .openGate 1 :: List.replicate 8 (.turn 1 (moving 5))) = some _ := rfl
  obtain ⟨front, run, _⟩ := Transition.Run.of_follow follows
  refine ⟨front, _, _, _, run.append (
      .cons (show Step _ _ _ (.turn 1 (moving 5)) _ from rfl) <|
      .cons (show Step _ _ _ (.publish 0 3) _ from rfl) <|
      .cons (show Step _ _ _ (.turn 1 (moving 5)) _ from rfl) <|
      .cons (show Step _ _ _ (.turn 1 (moving 5)) _ from rfl) <|
      .single (show Step _ _ _ (.turn 1 (moving 5)) _ from rfl)),
    ⟨⟨rfl, rfl, rfl⟩, fun u msg => ?_⟩, ⟨rfl, Point.noConfusion⟩, ?_, rfl, rfl, rfl⟩
  · match u with
    | 0 => exact List.not_mem_nil
    | 1 => exact List.not_mem_nil
  · simp only [List.forall_mem_cons]
    exact ⟨fun begins => Point.noConfusion begins.1, fun begins => Point.noConfusion begins.1,
      fun begins => begins.2 rfl, fun begins => begins.2 rfl,
      fun _ absurd => (List.not_mem_nil absurd).elim⟩

/-- The five items are all that the second scheduler could have seen. -/
theorem second_has_seen : ∃ front t back f,
    Transition.Run (Step (fun _ => {}) oneToNext) (inRow 5) (front ++ t :: back) f ∧
      f.Asleep 1 ∧ Begins 1 t ∧ (f.buffers 1).totalWritten = 5 := by
  obtain ⟨front, t, back, f, run, asleep, begins, latest, _, _, five⟩ := second_waits
  have seen := waiting_has_seen (inRow_starting 5) run asleep begins latest
  exact ⟨front, t, back, f, run, asleep, begins, (seen.1 0 1 (inRow_feeds 5)).trans five⟩

end Flowgraph

end TorchDsp
