import TorchDsp.Foundation.Streams
import TorchDsp.Flowgraph.Pipeline

/-! # The items of a pipeline

A flowgraph that carries items: a block reads the items in front of its reader, computes
others, and publishes these when its iteration commits. When it works on whole batches,
the scheduling cannot be seen in the items: whatever the interleaving, each buffer of a
pipeline holds a prefix of what the blocks before it, one after the other, make of the
items that have come in (`TorchDsp.Carrier.pipeline_computes`).
-/

namespace TorchDsp

open GraphExecutor Flowgraph

/-- A flowgraph with the items that it carries. -/
structure Carrier (n : Nat) (α : Type) where
  graph : Flowgraph n
  /-- The items published in each buffer, the first one first. -/
  published : Nat → List α := fun _ => []
  /-- What the block of a scheduler has computed and not published. -/
  inHand : Fin n → List α := fun _ => []

/-- What happens next, and the items that come in with it. -/
structure Carrier.Move (n : Nat) (α : Type) where
  act : Act n
  items : List α := []

namespace Carrier

variable {n : Nat} {α : Type}

/-- The items that the block of `u` consumes in a call of `do_work`: those in front of
its reader, as many as its input port reports. -/
def consumes (c : Carrier n α) (graph : Flowgraph n) (u : Fin n) : List α :=
  match (c.graph.group u).reader 0 0 with
  | none => []
  | some r => ((c.published r.source).drop r.totalRead).take (graph.view u).unreleased

/-- The items after a turn of `u`, which leads to `graph`; `work` is what the blocks
compute. What a block publishes begins with what it has computed first. -/
def advance (work : Nat → List α → List α) (c : Carrier n α) (u : Fin n) (graph : Flowgraph n) :
    Carrier n α :=
  match (c.graph.schedulers u).point, (graph.schedulers u).point with
  | .outputsChecked, .worked _ =>
      { c with graph, inHand := Function.update c.inHand u (work u (c.consumes graph u)) }
  | .released _, .published _ =>
      match (c.graph.group u).outputBuffer 0 0 with
      | none => { c with graph, inHand := Function.update c.inHand u [] }
      | some k =>
          let count := (graph.buffers k).totalWritten - (c.graph.buffers k).totalWritten
          { graph
            published :=
              Function.update c.published k (c.published k ++ (c.inHand u).take count)
            inHand := Function.update c.inHand u [] }
  | _, _ => { c with graph }

/-- The flowgraph with its items. What is published from outside brings its items. -/
def next (opts : Fin n → SchedulerTritonOptions) (wiring : Wiring n)
    (work : Nat → List α → List α) (c : Carrier n α) (move : Move n α) : Option (Carrier n α) :=
  match Flowgraph.next opts wiring c.graph move.act with
  | none => none
  | some graph =>
      match move.act with
      | .turn u _ => some (c.advance work u graph)
      | .publish k m =>
          if move.items.length = m then
            some { c with
              graph, published := Function.update c.published k (c.published k ++ move.items) }
          else none
      | _ => some { c with graph }

def Step (opts : Fin n → SchedulerTritonOptions) (wiring : Wiring n)
    (work : Nat → List α → List α) (c : Carrier n α) (move : Move n α) (c' : Carrier n α) : Prop :=
  next opts wiring work c move = some c'

end Carrier

/-! ## What a step moves -/

namespace Interleaving

/-- What a turn means for the items of a block. -/
inductive Shift (σ σ' : Interleaving) : Prop
  /-- The block consumes the items from its reader on. -/
  | works (l : Loop) (stands : σ.point = .outputsChecked) (worked : σ'.point = .worked l)
      (held : σ.unpublished = 0) (reads : σ.frontier = σ.totalRead)
      (consumed : σ'.frontier = σ.frontier + σ'.unreleased)
      (written : σ'.totalWritten = σ.totalWritten)
  /-- What the block has in hand is published. -/
  | publishes (l l' : Loop) (stands : σ.point = .released l) (ends : σ'.point = .published l')
      (same : σ'.frontier = σ.frontier)
      (written : σ'.totalWritten = σ.totalWritten + σ.unpublished)
  | keeps (working : ∀ l, σ.point = .outputsChecked → σ'.point ≠ .worked l)
      (publishing : ∀ l l', σ.point = .released l → σ'.point ≠ .published l')
      (same : σ'.frontier = σ.frontier) (written : σ'.totalWritten = σ.totalWritten)

variable {σ₀ σ σ' : Interleaving} {g : Group} {b : Block} {w : BlockWorkInput} {r : BufferReader}
  {v : BlockWorkOutput} {k source : Nat}

private theorem shift_of_phase {answers : Answers} {g' : Group} {point point' : Point}
    (one : g.OneBlock b w r v k) (phase : Phase answers g b w r v k point g' point') :
    Shift ⟨g, point⟩ ⟨g', point'⟩ := by
  cases phase with
  | inputBlocked status events | outputBlocked status events | callbacks l status events
  | again status events =>
      exact .keeps (fun _ _ => Point.noConfusion) (fun _ _ _ => Point.noConfusion) rfl rfl
  | input =>
      have one' := one.setInput (inputCount g r)
      refine .keeps (fun _ _ => Point.noConfusion) (fun _ _ _ => Point.noConfusion) ?_ ?_
      · rw [frontier, frontier, totalRead_of_one one', totalRead_of_one one]
        rfl
      · rw [totalWritten_of_one one', totalWritten_of_one one]
  | output =>
      have one' := one.setOutput (outputCount g b.outputMultiple k)
      refine .keeps (fun _ _ => Point.noConfusion) (fun _ _ _ => Point.noConfusion) ?_ ?_
      · rw [frontier, frontier, totalRead_of_one one', totalRead_of_one one]
        rfl
      · rw [totalWritten_of_one one', totalWritten_of_one one]
  | work report l listed leaves =>
      have one' := one.report report
      refine .works l rfl rfl rfl (Nat.add_zero _) ?_ ?_
      · rw [frontier, frontier, totalRead_of_one one', totalRead_of_one one]
        rfl
      · rw [totalWritten_of_one one', totalWritten_of_one one]
  | release l l' =>
      refine .keeps (fun _ absurd => by cases absurd) (fun _ _ absurd => by cases absurd) ?_ ?_
      · rw [frontier, frontier, totalRead_of_one one.postReads, totalRead_of_one one,
          unreleased_of_one one]
        rfl
      · rw [totalWritten_of_one one.postReads, totalWritten_of_one one]
  | publish l l' =>
      have one' := one.setBuffers
        (Function.update g.buffers k (postWrite v.nProduced (g.buffers k)))
      refine .publishes l l' rfl rfl ?_ ?_
      · rw [frontier, frontier, totalRead_of_one one', totalRead_of_one one]
        rfl
      · rw [totalWritten_of_one one', totalWritten_of_one one, (unpublished_of_one one l).2]
        dsimp only
        rw [Function.update_self]
        rfl

/-- **What a turn means for the items of a block.** -/
theorem Underway.shift {turn : Turn} (underway : Underway σ₀ source k σ)
    (moved : Moved σ turn σ') : Shift σ σ' := by
  obtain ⟨⟨b, w, r, v, counted⟩, _, _⟩ := underway
  cases moved with
  | resume answers resumes => exact shift_of_phase counted.one (phase_of_resume counted.one resumes)
  | @neighbours turn group moved =>
      have one := counted.one.ofBlocks moved.blocks
      have written := (neighbours_one counted.one moved).2.2.1
      refine .keeps (fun l stands worked => ?_) (fun l l' stands ends => ?_)
        (frontier_neighbours moved turn).1 ?_
      · cases stands.symm.trans worked
      · cases stands.symm.trans ends
      · rw [show σ = ⟨σ.group, σ.point⟩ from rfl, totalWritten_of_one one,
          totalWritten_of_one counted.one, written]

/-- What others do leaves a block where it is. -/
theorem frontier_of_others (moved : Moved σ (.publish 0 0) σ') : σ'.frontier = σ.frontier := by
  cases moved with
  | neighbours _ moved => exact (frontier_neighbours moved (.publish 0 0)).1

end Interleaving

namespace Flowgraph

variable {n : Nat} {opts : Fin n → SchedulerTritonOptions} {wiring : Wiring n}
  {f f' : Flowgraph n} {act : Act n}

/-- A turn of a scheduler publishes only what its blocks write. -/
theorem totalWritten_of_turn {v : Fin n} {answers : Answers} {k : Nat}
    (step : Step opts wiring f (.turn v answers) f')
    (other : k ∉ outputBuffers (f.schedulers v).blocks) :
    (f'.buffers k).totalWritten = (f.buffers k).totalWritten := by
  have turns : turn opts wiring f v answers = some f' := step
  unfold turn at turns
  dsimp only at turns
  split at turns
  · split at turns
    · obtain ⟨thread, _, rfl⟩ := Option.map_eq_some_iff.mp turns
      rfl
    · split at turns
      · obtain ⟨thread, _, rfl⟩ := Option.map_eq_some_iff.mp turns
        rfl
      · split at turns
        · cases turns
        · rename_i g point resumes
          cases turns
          exact ((effect_of_resume resumes).totalWritten k).2 other
  · obtain ⟨thread, _, rfl⟩ := Option.map_eq_some_iff.mp turns
    rfl

/-- What is neither a turn nor a publication publishes nothing. -/
theorem totalWritten_of_still (step : Step opts wiring f act f')
    (turns : ∀ v answers, act ≠ .turn v answers) (publishes : ∀ k m, act ≠ .publish k m) (k : Nat) :
    (f'.buffers k).totalWritten = (f.buffers k).totalWritten := by
  cases act with
  | turn v answers => exact (turns v answers rfl).elim
  | publish k m => exact (publishes k m rfl).elim
  | push u msg | openGate u | requestStop u =>
      simp only [Step, Flowgraph.next] at step
      obtain ⟨thread, _, rfl⟩ := Option.map_eq_some_iff.mp step
      rfl
  | release j i m =>
      simp only [Step, Flowgraph.next] at step
      split at step
      · cases step
      · split at step <;> cases step
        by_cases same : k = j
        · subst same
          dsimp only
          rw [Function.update_self]
          rfl
        · dsimp only
          rw [Function.update_of_ne same]

/-- A step as each scheduler sees it. -/
theorem Step.seenBy (step : Step opts wiring f act f') (apart : f.WritersApart) (u : Fin n) :
    Interleaving.Moved (f.view u) (act.seenBy u) (f'.view u) :=
  (run_seenBy (.single step) apart u).step_of_mem _ List.mem_cons_self

end Flowgraph

namespace Carrier

open Interleaving (Underway Shift)

variable {n : Nat} {α : Type} {opts : Fin n → SchedulerTritonOptions} {wiring : Wiring n}
  {work : Nat → List α → List α} {batch : Nat → Nat} {f₀ : Flowgraph n} {c c' : Carrier n α}
  {move : Move n α}

/-- The items travel along with the flowgraph and do not steer it. -/
@[simp] theorem graph_advance (u : Fin n) (graph : Flowgraph n) :
    (c.advance work u graph).graph = graph := by
  unfold advance
  split
  · rfl
  · split <;> rfl
  · rfl

/-- A block that computes has the results in hand. -/
theorem advance_of_works {u : Fin n} {graph : Flowgraph n} {l : Loop}
    (stands : (c.graph.view u).point = .outputsChecked)
    (worked : (graph.view u).point = .worked l) :
    c.advance work u graph =
      { c with graph, inHand := Function.update c.inHand u (work u (c.consumes graph u)) } := by
  have before : (c.graph.schedulers u).point = .outputsChecked := stands
  have after : (graph.schedulers u).point = .worked l := worked
  simp only [advance, before, after]

/-- A block that publishes hands out as much as its buffer counts. -/
theorem advance_of_publishes {u : Fin n} {graph : Flowgraph n} {l l' : Loop} {k : Nat}
    (stands : (c.graph.view u).point = .released l) (ends : (graph.view u).point = .published l')
    (buffer : (c.graph.group u).outputBuffer 0 0 = some k)
    (count : (graph.buffers k).totalWritten - (c.graph.buffers k).totalWritten =
      (c.inHand u).length) :
    c.advance work u graph =
      { graph
        published := Function.update c.published k (c.published k ++ c.inHand u)
        inHand := Function.update c.inHand u [] } := by
  have before : (c.graph.schedulers u).point = .released l := stands
  have after : (graph.schedulers u).point = .published l' := ends
  simp only [advance, before, after, buffer, count, List.take_length]

/-- In all other phases no item moves. -/
theorem advance_of_keeps {u : Fin n} {graph : Flowgraph n}
    (working : ∀ l, (c.graph.view u).point = .outputsChecked → (graph.view u).point ≠ .worked l)
    (publishing : ∀ l l', (c.graph.view u).point = .released l →
      (graph.view u).point ≠ .published l') : c.advance work u graph = { c with graph } := by
  unfold advance
  split
  · exact (working _ (by assumption) (by assumption)).elim
  · exact (publishing _ _ (by assumption) (by assumption)).elim
  · rfl

/-- What a step does to the items. -/
inductive Moved (opts : Fin n → SchedulerTritonOptions) (wiring : Wiring n)
    (work : Nat → List α → List α) (c : Carrier n α) : Move n α → Carrier n α → Prop
  | turn (v : Fin n) (answers : Answers) (items : List α) (graph : Flowgraph n)
      (moves : Flowgraph.Step opts wiring c.graph (.turn v answers) graph) :
      Moved opts wiring work c ⟨.turn v answers, items⟩ (c.advance work v graph)
  | publish (k : Nat) (items : List α) (graph : Flowgraph n)
      (moves : Flowgraph.Step opts wiring c.graph (.publish k items.length) graph) :
      Moved opts wiring work c ⟨.publish k items.length, items⟩
        { c with graph, published := Function.update c.published k (c.published k ++ items) }
  | still (act : Act n) (items : List α) (graph : Flowgraph n)
      (moves : Flowgraph.Step opts wiring c.graph act graph)
      (turns : ∀ v answers, act ≠ .turn v answers) (publishes : ∀ k m, act ≠ .publish k m) :
      Moved opts wiring work c ⟨act, items⟩ { c with graph }

/-- Every step of the items is one of their moves. -/
theorem Step.moved (step : Step opts wiring work c move c') :
    Moved opts wiring work c move c' := by
  obtain ⟨act, items⟩ := move
  unfold Step next at step
  split at step
  · cases step
  · rename_i graph moves
    cases act with
    | turn v answers => cases step; exact .turn v answers items graph moves
    | publish k m =>
        simp only at step
        split at step <;> cases step
        rename_i count
        subst count
        exact .publish k items graph moves
    | push | openGate | requestStop | release =>
        cases step
        exact .still _ items graph moves (fun _ _ absurd => by cases absurd)
          fun _ _ absurd => by cases absurd

/-- The flowgraph takes a step of its own. -/
theorem Step.graph (step : Step opts wiring work c move c') :
    Flowgraph.Step opts wiring c.graph move.act c'.graph := by
  cases step.moved with
  | turn v answers items graph moves => rw [graph_advance]; exact moves
  | publish k items graph moves => exact moves
  | still act items graph moves => exact moves

/-! ## What the items are -/

/-- The items are those that the buffers count and the blocks have computed. -/
structure Computed (work : Nat → List α → List α) (c : Carrier n α) : Prop where
  length : ∀ k ≤ n, (c.published k).length = (c.graph.buffers k).totalWritten
  /-- What a block has published and has in hand is what it makes of what it has consumed. -/
  stage : ∀ u : Fin n, c.published (u + 1) ++ c.inHand u =
    work u ((c.published u).take (c.graph.view u).frontier)

/-- A pipeline after some steps. -/
structure Carried (work : Nat → List α → List α) (batch : Nat → Nat) (f₀ : Flowgraph n)
    (c : Carrier n α) : Prop where
  wires : SameWires f₀ c.graph
  underway : ∀ u : Fin n, Underway (f₀.view u) u (u + 1) (c.graph.view u)
  computed : Computed work c
  batches : ∀ u : Fin n, batch u ∣ (c.graph.view u).frontier

/-- A block consumes what has been published. -/
theorem Carried.within (carried : Carried work batch f₀ c) (u : Fin n) :
    (c.graph.view u).frontier ≤ (c.published u).length := by
  obtain ⟨⟨b, w, r, v, counted⟩, behind, limited⟩ := carried.underway u
  have source := (limited r counted.one.readerOf).1
  have passed := behind r counted.one.readerOf
  have frontier : (c.graph.view u).frontier = r.totalRead + (c.graph.view u).unreleased :=
    congrArg (· + _) (Interleaving.totalRead_of_one counted.one _)
  rw [carried.computed.length u (Nat.le_of_lt u.isLt), frontier]
  rw [source] at passed
  exact passed

/-- What the block of a scheduler has published. -/
theorem Carried.totalWritten (carried : Carried work batch f₀ c) (u : Fin n) :
    (c.graph.view u).totalWritten = (c.graph.buffers (u + 1)).totalWritten := by
  obtain ⟨⟨b, w, r, v, counted⟩, _⟩ := carried.underway u
  exact Interleaving.totalWritten_of_one counted.one _

private theorem Carried.length_inHand (carried : Carried work batch f₀ c) (fresh : f₀.Fresh)
    (pipeline : f₀.Pipeline) (u : Fin n) (whole : Streams.Batchwise (batch u) (work u)) :
    (c.inHand u).length = (c.graph.view u).unpublished := by
  obtain ⟨_, read, written, _⟩ := fresh.underway pipeline u
  obtain ⟨⟨b, w, r, v, counted⟩, _⟩ := carried.underway u
  have account := counted.published
  have cut : ((c.published u).take (c.graph.view u).frontier).length =
      (c.graph.view u).frontier := List.length_take_of_le (carried.within u)
  have lengths := congrArg List.length (carried.computed.stage u)
  rw [List.length_append, whole.length _ (cut.symm ▸ carried.batches u), cut,
    carried.computed.length _ (show u.val + 1 ≤ n from u.isLt)] at lengths
  rw [carried.totalWritten, read, written] at account
  omega

/-- A step that leaves the items of a block alone. -/
theorem Carried.stage_of_still (carried : Carried work batch f₀ c) {u : Fin n}
    (published : c'.published (u + 1) = c.published (u + 1)) (inHand : c'.inHand u = c.inHand u)
    (ahead : c.published u <+: c'.published u)
    (same : (c'.graph.view u).frontier = (c.graph.view u).frontier) :
    c'.published (u + 1) ++ c'.inHand u =
      work u ((c'.published u).take (c'.graph.view u).frontier) := by
  obtain ⟨rest, more⟩ := ahead
  rw [published, inHand, carried.computed.stage u, same, ← more,
    List.take_append_of_le_length (carried.within u)]

/-- The items after a turn of a scheduler. -/
theorem Carried.turn (carried : Carried work batch f₀ c) (fresh : f₀.Fresh)
    (pipeline : f₀.Pipeline) {v : Fin n} (whole : Streams.Batchwise (batch v) (work v))
    {answers : Answers} {graph : Flowgraph n}
    (moves : Flowgraph.Step opts wiring c.graph (.turn v answers) graph)
    (others : ∀ u, u ≠ v → (graph.view u).frontier = (c.graph.view u).frontier)
    (shift : Shift (c.graph.view v) (graph.view v))
    (writes : (graph.view v).totalWritten = (graph.buffers (v + 1)).totalWritten) :
    Computed work (c.advance work v graph) := by
  have elsewhere (k : Nat) (other : k ≠ v + 1) :
      (graph.buffers k).totalWritten = (c.graph.buffers k).totalWritten := by
    refine totalWritten_of_turn moves fun listed => other ?_
    rw [carried.wires.outputBuffers, pipeline.outputBuffers] at listed
    exact List.mem_singleton.mp listed
  have silent (same : (graph.view v).totalWritten = (c.graph.view v).totalWritten) (k : Nat)
      (below : k ≤ n) : (c.published k).length = (graph.buffers k).totalWritten := by
    rw [carried.computed.length k below]
    by_cases own : k = v + 1
    · rw [own, ← writes, same, carried.totalWritten]
    · exact (elsewhere k own).symm
  have held := carried.length_inHand fresh pipeline v whole
  obtain ⟨⟨b, w, r, port, counted⟩, _, limited⟩ := carried.underway v
  cases shift with
  | keeps working publishing same written =>
      rw [advance_of_keeps working publishing]
      refine ⟨silent written, fun u => carried.stage_of_still rfl rfl List.prefix_rfl ?_⟩
      by_cases own : u = v
      · exact own ▸ same
      · exact others u own
  | works l stands worked none reads consumed written =>
      have read : r.totalRead = (c.graph.view v).frontier := by
        rw [reads]
        exact (Interleaving.totalRead_of_one counted.one _).symm
      have taken : c.consumes graph v = ((c.published v).drop (c.graph.view v).frontier).take
          (graph.view v).unreleased := by
        have reader : (c.graph.group v).reader 0 0 = some r := counted.one.readerOf
        have source : r.source = v := (limited r counted.one.readerOf).1
        simp only [consumes, reader, source, read]
      have empty : c.inHand v = [] := List.eq_nil_of_length_eq_zero (held.trans none)
      rw [advance_of_works stands worked]
      refine ⟨silent written, fun u => ?_⟩
      by_cases own : u = v
      · subst own
        have before := carried.computed.stage u
        have cut : ((c.published u).take (c.graph.view u).frontier).length =
            (c.graph.view u).frontier := List.length_take_of_le (carried.within u)
        rw [empty, List.append_nil] at before
        dsimp only
        rw [Function.update_self, before, taken, consumed, List.take_add,
          whole.append _ _ (cut.symm ▸ carried.batches u)]
      · exact carried.stage_of_still rfl (Function.update_of_ne own _ _) List.prefix_rfl
          (others u own)
  | publishes l l' stands ends same written =>
      have count : (graph.buffers (v + 1)).totalWritten -
          (c.graph.buffers (v + 1)).totalWritten = (c.inHand v).length := by
        rw [← writes, written, carried.totalWritten, held]
        omega
      rw [advance_of_publishes stands ends counted.one.bufferOf count]
      refine ⟨fun k below => ?_, fun u => ?_⟩
      · dsimp only
        by_cases own : k = v + 1
        · subst own
          rw [Function.update_self, List.length_append, carried.computed.length _ below, held,
            ← writes, written, carried.totalWritten]
        · rw [Function.update_of_ne own, carried.computed.length k below, elsewhere k own]
      · by_cases own : u = v
        · subst own
          dsimp only
          rw [Function.update_self, Function.update_self, Function.update_of_ne (by omega),
            List.append_nil, carried.computed.stage u, same]
        · have other : u.val + 1 ≠ v + 1 := fun absurd => own (Fin.ext (by omega))
          refine carried.stage_of_still (Function.update_of_ne other _ _)
            (Function.update_of_ne own _ _) ?_ (others u own)
          dsimp only
          by_cases reads : u.val = v + 1
          · rw [reads, Function.update_self]
            exact List.prefix_append _ _
          · rw [Function.update_of_ne reads]

/-- The items after a publication from outside. -/
theorem Carried.publish (carried : Carried work batch f₀ c) (pipeline : f₀.Pipeline) {k : Nat}
    {items : List α} {graph : Flowgraph n}
    (moves : Flowgraph.Step opts wiring c.graph (.publish k items.length) graph)
    (others : ∀ u, (graph.view u).frontier = (c.graph.view u).frontier) :
    Computed work { c with
      graph, published := Function.update c.published k (c.published k ++ items) } := by
  simp only [Flowgraph.Step, Flowgraph.next] at moves
  split at moves <;> cases moves
  rename_i room
  refine ⟨fun j below => ?_, fun u => ?_⟩
  · have before := carried.computed.length j below
    dsimp only
    by_cases own : j = k
    · subst own
      rw [Function.update_self, Function.update_self, List.length_append, before]
      rfl
    · rw [Function.update_of_ne own, Function.update_of_ne own, before]
  · have other : u.val + 1 ≠ k := by
      intro same
      refine room.1 u ?_
      rw [carried.wires.outputBuffers, pipeline.outputBuffers, ← same]
      exact List.mem_singleton_self _
    refine carried.stage_of_still (Function.update_of_ne other _ _) rfl ?_ (others u)
    dsimp only
    by_cases reads : u.val = k
    · rw [reads, Function.update_self]
      exact List.prefix_append _ _
    · rw [Function.update_of_ne reads]

/-- **The items after a step.** -/
theorem Carried.step (carried : Carried work batch f₀ c) (fresh : f₀.Fresh)
    (pipeline : f₀.Pipeline) (whole : ∀ k < n, Streams.Batchwise (batch k) (work k))
    (step : Step opts wiring work c move c')
    (counts : ∀ u, Interleaving.ReportsOneCount (seenBy u ⟨c.graph, move.act, c'.graph⟩))
    (batches : ∀ u : Fin n,
      batch u ∣ (Interleaving.consumedBy (seenBy u ⟨c.graph, move.act, c'.graph⟩)).length) :
    Carried work batch f₀ c' := by
  have moves := step.graph
  have apart := carried.wires.writersApart pipeline.writersApart
  have seen := moves.seenBy apart
  have onward (u : Fin n) := (carried.underway u).moved (seen u) (counts u)
  have multiples (u : Fin n) : batch u ∣ (c'.graph.view u).frontier := by
    obtain ⟨_, ahead, consumed⟩ := onward u
    have more := batches u
    have length : (Interleaving.consumedBy (seenBy u ⟨c.graph, move.act, c'.graph⟩)).length =
        (c'.graph.view u).frontier - (c.graph.view u).frontier :=
      (congrArg List.length consumed).trans List.length_range'
    rw [length] at more
    exact (Nat.dvd_sub_iff_left ahead (carried.batches u)).mp more
  refine ⟨fun u => (moves.moved.sameWires u).trans (carried.wires u), fun u => (onward u).1, ?_,
    multiples⟩
  cases step.moved with
  | turn v answers items graph turns =>
      rw [graph_advance] at seen onward
      refine carried.turn fresh pipeline (whole v v.isLt) turns (fun u other => ?_)
        ((carried.underway v).shift (seen v)) ?_
      · refine Interleaving.frontier_of_others ?_
        have label : (Act.turn v answers).seenBy u = .publish 0 0 := if_neg (Ne.symm other)
        exact label ▸ seen u
      · obtain ⟨⟨b, w, r, port, counted⟩, _⟩ := (onward v).1
        exact Interleaving.totalWritten_of_one counted.one _
  | publish k items graph publishes =>
      exact carried.publish pipeline publishes fun u => Interleaving.frontier_of_others (seen u)
  | still act items graph steps turns publishes =>
      refine ⟨fun k below => ?_, fun u => carried.stage_of_still rfl rfl List.prefix_rfl ?_⟩
      · exact (carried.computed.length k below).trans
          (totalWritten_of_still steps turns publishes k).symm
      · refine Interleaving.frontier_of_others ?_
        have label : act.seenBy u = .publish 0 0 := by
          cases act with
          | turn v answers => exact (turns v answers rfl).elim
          | _ => rfl
        exact label ▸ seen u

/-! ## Runs -/

/-- A step without its items. -/
def bare (t : Transition.Taken (Carrier n α) (Move n α)) :
    Transition.Taken (Flowgraph n) (Act n) :=
  ⟨t.source.graph, t.label.act, t.target.graph⟩

/-- Every call of a run consumes whole batches. -/
def WholeBatches (batch : Nat → Nat)
    (taken : List (Transition.Taken (Carrier n α) (Move n α))) : Prop :=
  ∀ t ∈ taken, ∀ u : Fin n, batch u ∣ (Interleaving.consumedBy (seenBy u (bare t))).length

private theorem carried_of_fresh (fresh : f₀.Fresh) (pipeline : f₀.Pipeline)
    (whole : ∀ k < n, Streams.Batchwise (batch k) (work k)) :
    Carried work batch f₀ ⟨f₀, fun _ => [], fun _ => []⟩ where
  wires := fun _ => rfl
  underway := fun u => (fresh.underway pipeline u).1
  computed := by
    refine ⟨fun k _ => (fresh.unwritten k).symm, fun u => ?_⟩
    rw [List.take_nil]
    exact (List.eq_nil_of_length_eq_zero ((whole u u.isLt).length [] (Nat.dvd_zero _))).symm
  batches := fun u => by
    rw [(fresh.underway pipeline u).2.2.2]
    exact Nat.dvd_zero _

private theorem carried_of_run {taken : List (Transition.Taken (Carrier n α) (Move n α))}
    (fresh : f₀.Fresh) (pipeline : f₀.Pipeline)
    (whole : ∀ k < n, Streams.Batchwise (batch k) (work k))
    (run : Transition.Run (Step opts wiring work) ⟨f₀, fun _ => [], fun _ => []⟩ taken c)
    (counts : ReportOneCount (taken.map bare)) (batches : WholeBatches batch taken) :
    Carried work batch f₀ c :=
  (run.invariant (Carried work batch f₀) (carried_of_fresh fresh pipeline whole)
    fun t member step carried => carried.step fresh pipeline whole step
      (counts (bare t) (List.mem_map_of_mem member)) (batches t member)).1

/-- **A pipeline computes.** The blocks work on whole batches and report one count in
every call. Then, whatever the interleaving, each buffer holds the first items of what
the blocks before it make, one after the other, of all that comes in: as many as it
counts. -/
theorem pipeline_computes {taken : List (Transition.Taken (Carrier n α) (Move n α))}
    (fresh : f₀.Fresh) (pipeline : f₀.Pipeline)
    (whole : ∀ k < n, Streams.Batchwise (batch k) (work k))
    (run : Transition.Run (Step opts wiring work) ⟨f₀, fun _ => [], fun _ => []⟩ taken c)
    (counts : ReportOneCount (taken.map bare)) (batches : WholeBatches batch taken)
    (input : List α) (comes : c.published 0 <+: input) :
    ∀ k ≤ n, c.published k <+: Streams.composite work k input ∧
      (c.published k).length = (c.graph.buffers k).totalWritten := by
  have carried := carried_of_run fresh pipeline whole run counts batches
  have computes := Streams.prefix_composite (n := n)
    (fun k => if below : k < n then (c.graph.view ⟨k, below⟩).frontier else 0)
    whole ?_ ?_ ?_ comes
  · exact fun k below => ⟨computes k below, carried.computed.length k below⟩
  · intro k below
    simp only [below, ↓reduceDIte]
    exact carried.batches ⟨k, below⟩
  · intro k below
    simp only [below, ↓reduceDIte]
    exact carried.within ⟨k, below⟩
  · intro k below
    simp only [below, ↓reduceDIte]
    exact ⟨_, carried.computed.stage ⟨k, below⟩⟩

/-- **The interleaving cannot be seen.** Two runs, of two pipelines with the same blocks,
that take in items of one input: what one of them has published is a prefix of what the
other one has. -/
theorem runs_agree {taken taken' : List (Transition.Taken (Carrier n α) (Move n α))}
    {opts' : Fin n → SchedulerTritonOptions} {wiring' : Wiring n} {f₁ : Flowgraph n}
    (fresh : f₀.Fresh) (pipeline : f₀.Pipeline) (fresh' : f₁.Fresh) (pipeline' : f₁.Pipeline)
    (whole : ∀ k < n, Streams.Batchwise (batch k) (work k))
    (run : Transition.Run (Step opts wiring work) ⟨f₀, fun _ => [], fun _ => []⟩ taken c)
    (run' : Transition.Run (Step opts' wiring' work) ⟨f₁, fun _ => [], fun _ => []⟩ taken' c')
    (counts : ReportOneCount (taken.map bare)) (counts' : ReportOneCount (taken'.map bare))
    (batches : WholeBatches batch taken) (batches' : WholeBatches batch taken')
    (input : List α) (comes : c.published 0 <+: input) (comes' : c'.published 0 <+: input) :
    ∀ k ≤ n, (c.graph.buffers k).totalWritten ≤ (c'.graph.buffers k).totalWritten →
      c.published k <+: c'.published k := by
  intro k below fewer
  obtain ⟨computed, length⟩ :=
    pipeline_computes fresh pipeline whole run counts batches input comes k below
  obtain ⟨computed', length'⟩ :=
    pipeline_computes fresh' pipeline' whole run' counts' batches' input comes' k below
  exact List.prefix_of_prefix_length_le computed computed' (by omega)

/-- The first block adds one to each number, the second one doubles it. -/
def addThenDouble (k : Nat) : List Nat → List Nat :=
  if k = 0 then List.map (· + 1) else List.map (· * 2)

private theorem addThenDouble_batchwise (k : Nat) : Streams.Batchwise 1 (addThenDouble k) := by
  unfold addThenDouble
  split <;> exact Streams.batchwise_map _

/-- Steps without a call of `do_work`. -/
def Quiet (move : Move n α) : Prop :=
  ∀ v answers, move.act = .turn v answers → answers = unasked

private theorem reportOneCount_append
    {taken later : List (Transition.Taken (Carrier n α) (Move n α))}
    (front : ReportOneCount (taken.map bare)) (back : ReportOneCount (later.map bare)) :
    ReportOneCount ((taken ++ later).map bare) := by
  rw [List.map_append]
  exact front.append back

/-- Follow quiet steps. -/
theorem run_of_quiet {moves : List (Move n α)}
    (follows : Transition.follow (next opts wiring work) c moves = some c')
    (quiet : ∀ move ∈ moves, Quiet move) : ∃ taken,
      Transition.Run (Step opts wiring work) c taken c' ∧ ReportOneCount (taken.map bare) := by
  obtain ⟨taken, run, labels⟩ := Transition.Run.of_follow follows
  refine ⟨taken, run, reportOneCount_of_quiet fun t member => ?_⟩
  obtain ⟨t, listed, rfl⟩ := List.mem_map.mp member
  exact quiet t.label (labels ▸ List.mem_map_of_mem listed)

/-- Turns without a call of `do_work`. -/
def rests (v : Fin n) (turns : Nat) : List (Move n α) := List.replicate turns ⟨.turn v unasked, []⟩

/-- Some items come in, and a scheduler is woken. -/
def comesIn (v : Fin n) (count : Nat) (items : List α) : List (Move n α) :=
  ⟨.publish 0 count, items⟩ :: ⟨.openGate v, []⟩ ::
    ⟨.push v (.action .notifyAll), []⟩ :: rests v 10

private theorem quiet_rests {v : Fin n} {turns : Nat} :
    ∀ move ∈ rests (α := α) v turns, Quiet move := by
  intro move member v answers same
  rw [List.eq_of_mem_replicate member] at same
  cases same
  rfl

private theorem quiet_comesIn {v : Fin n} {count : Nat} {items : List α} :
    ∀ move ∈ comesIn v count items, Quiet move := by
  refine List.forall_mem_cons.mpr ⟨?_, List.forall_mem_cons.mpr ⟨?_,
    List.forall_mem_cons.mpr ⟨?_, quiet_rests⟩⟩⟩ <;>
  · intro v answers absurd
    cases absurd

/-- Three numbers come in, and the first scheduler adds one to each. -/
theorem three_added : ∃ taken c,
    Transition.Run (Step (fun _ => {}) oneToNext addThenDouble)
      ⟨inRow 0, fun _ => [], fun _ => []⟩ taken c ∧ ReportOneCount (taken.map bare) ∧
      c.published 0 = [1, 2, 3] ∧ (c.graph.buffers 1).totalWritten = 3 := by
  obtain ⟨c₀, c₁, c₂, comes, adds, rest, count, input, output⟩ :
      ∃ c₀ c₁ c₂, Transition.follow (next (fun _ => {}) oneToNext addThenDouble)
          ⟨inRow 0, fun _ => [], fun _ => []⟩ (comesIn 0 3 [1, 2, 3]) = some c₀ ∧
        Step (fun _ => {}) oneToNext addThenDouble c₀ ⟨.turn 0 (moving 3), []⟩ c₁ ∧
        Transition.follow (next (fun _ => {}) oneToNext addThenDouble) c₁ (rests 0 3) = some c₂ ∧
        (∀ report ∈ (moving 3).reports 0, Interleaving.OneCount (c₀.graph.group 0) report) ∧
        c₂.published 0 = [1, 2, 3] ∧ (c₂.graph.buffers 1).totalWritten = 3 :=
    ⟨_, _, _, rfl, rfl, rfl, fun _ => Interleaving.oneCount_moving
      ⟨rfl, rfl, rfl, rfl, rfl, rfl, by decide⟩ (by decide) (by decide), rfl, rfl⟩
  obtain ⟨front, before, counted⟩ := run_of_quiet comes quiet_comesIn
  obtain ⟨back, after, counts⟩ := run_of_quiet rest quiet_rests
  exact ⟨_, _, before.append ((Transition.Run.single adds).append after),
    reportOneCount_append counted (reportOneCount_append (reportOneCount_of_turn count) counts),
    input, output⟩

/-- Eight numbers pass through two schedulers, one after the other. -/
theorem eight_pass : ∃ taken c,
    Transition.Run (Step (fun _ => {}) oneToNext addThenDouble)
      ⟨inRow 0, fun _ => [], fun _ => []⟩ taken c ∧ ReportOneCount (taken.map bare) ∧
      c.published 0 = [1, 2, 3, 4, 5, 6, 7, 8] ∧ (c.graph.buffers 1).totalWritten = 8 ∧
      (c.graph.buffers 2).totalWritten = 8 := by
  obtain ⟨c₀, c₁, c₂, c₃, c₄, comes, adds, passes, doubles, rest, count, count', facts⟩ :
      ∃ c₀ c₁ c₂ c₃ c₄, Transition.follow (next (fun _ => {}) oneToNext addThenDouble)
          ⟨inRow 0, fun _ => [], fun _ => []⟩ (comesIn 0 8 [1, 2, 3, 4, 5, 6, 7, 8]) = some c₀ ∧
        Step (fun _ => {}) oneToNext addThenDouble c₀ ⟨.turn 0 (moving 8), []⟩ c₁ ∧
        Transition.follow (next (fun _ => {}) oneToNext addThenDouble) c₁
          (rests 0 6 ++ ⟨.openGate 1, []⟩ :: rests 1 10) = some c₂ ∧
        Step (fun _ => {}) oneToNext addThenDouble c₂ ⟨.turn 1 (moving 8), []⟩ c₃ ∧
        Transition.follow (next (fun _ => {}) oneToNext addThenDouble) c₃ (rests 1 3) = some c₄ ∧
        (∀ report ∈ (moving 8).reports 0, Interleaving.OneCount (c₀.graph.group 0) report) ∧
        (∀ report ∈ (moving 8).reports 0, Interleaving.OneCount (c₂.graph.group 1) report) ∧
        c₄.published 0 = [1, 2, 3, 4, 5, 6, 7, 8] ∧ (c₄.graph.buffers 1).totalWritten = 8 ∧
        (c₄.graph.buffers 2).totalWritten = 8 := by
    refine ⟨_, _, _, _, _, rfl, rfl, rfl, rfl, rfl, fun _ => ?_, fun _ => ?_, rfl, rfl, rfl⟩ <;>
    · exact Interleaving.oneCount_moving ⟨rfl, rfl, rfl, rfl, rfl, rfl, by decide⟩
        (by decide) (by decide)
  have quiet : ∀ move ∈ rests 0 6 ++ (⟨.openGate 1, []⟩ : Move 2 Nat) :: rests 1 10,
      Quiet move := by
    refine List.forall_mem_append.mpr ⟨quiet_rests, List.forall_mem_cons.mpr ⟨?_, quiet_rests⟩⟩
    intro v answers absurd
    cases absurd
  obtain ⟨front, before, counted⟩ := run_of_quiet comes quiet_comesIn
  obtain ⟨between, middle, counts⟩ := run_of_quiet passes quiet
  obtain ⟨back, after, countsLater⟩ := run_of_quiet rest quiet_rests
  exact ⟨_, _, before.append <| (Transition.Run.single adds).append <| middle.append <|
      (Transition.Run.single doubles).append after,
    reportOneCount_append counted <| reportOneCount_append (reportOneCount_of_turn count) <|
      reportOneCount_append counts <|
        reportOneCount_append (reportOneCount_of_turn count') countsLater, facts⟩

/-- They come out as the two blocks make them. -/
theorem eight_computed : ∃ taken c,
    Transition.Run (Step (fun _ => {}) oneToNext addThenDouble)
      ⟨inRow 0, fun _ => [], fun _ => []⟩ taken c ∧
      c.published 2 = [4, 6, 8, 10, 12, 14, 16, 18] := by
  obtain ⟨taken, c, run, counts, input, _, output⟩ := eight_pass
  obtain ⟨computed, length⟩ := pipeline_computes inRow_fresh (inRow_pipeline 0)
    (fun k _ => addThenDouble_batchwise k) run counts (fun _ _ _ => Nat.one_dvd _)
    [1, 2, 3, 4, 5, 6, 7, 8] (input ▸ List.prefix_rfl) 2 (Nat.le_refl 2)
  exact ⟨taken, c, run, computed.eq_of_length (length.trans output)⟩

/-- What comes out of the first block does not depend on how many numbers follow. -/
theorem three_of_eight : ∃ taken c taken' c',
    Transition.Run (Step (fun _ => {}) oneToNext addThenDouble)
      ⟨inRow 0, fun _ => [], fun _ => []⟩ taken c ∧
    Transition.Run (Step (fun _ => {}) oneToNext addThenDouble)
      ⟨inRow 0, fun _ => [], fun _ => []⟩ taken' c' ∧
    (c.graph.buffers 1).totalWritten = 3 ∧ c.published 1 <+: c'.published 1 := by
  obtain ⟨taken, c, run, counts, input, three⟩ := three_added
  obtain ⟨taken', c', run', counts', input', eight, _⟩ := eight_pass
  refine ⟨taken, c, taken', c', run, run', three, ?_⟩
  have comes : c.published 0 <+: [1, 2, 3, 4, 5, 6, 7, 8] := ⟨[4, 5, 6, 7, 8], by rw [input]; rfl⟩
  exact runs_agree inRow_fresh (inRow_pipeline 0) inRow_fresh (inRow_pipeline 0)
    (fun k _ => addThenDouble_batchwise k) run run' counts counts' (fun _ _ _ => Nat.one_dvd _)
    (fun _ _ _ => Nat.one_dvd _) _ comes (input' ▸ List.prefix_rfl) 1 (by decide) (by omega)

end Carrier

end TorchDsp
