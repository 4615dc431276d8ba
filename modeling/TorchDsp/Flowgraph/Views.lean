import TorchDsp.Flowgraph.Seen

/-! # What a scheduler sees of the flowgraph

For the executor of one scheduler, all that the other schedulers do is what the
neighbours of a group may do: they publish into buffers that its blocks do not
write, and release items. Every run of the flowgraph is therefore, for each
scheduler, a run of its group between neighbours (`TorchDsp.Flowgraph.run_seenBy`).
-/

namespace TorchDsp

open GraphExecutor

namespace GraphExecutor

variable {g g' : Group} {point point' : Point}

/-- A phase changes nothing of a buffer but what is published. -/
theorem Effect.buffers (effect : Effect g point g' point') (k : Nat) :
    g'.buffers k = { g.buffers k with totalWritten := (g'.buffers k).totalWritten } := by
  have published (n : Nat) (ids : List Nat) (buffers : Nat → Buffer) (k : Nat) :
      postWrites n ids buffers k =
        { buffers k with totalWritten := (postWrites n ids buffers k).totalWritten } := by
    unfold postWrites
    induction ids generalizing buffers with
    | nil => rfl
    | cons j rest ih =>
        rw [List.foldl_cons, ih]
        by_cases same : k = j
        · subst same
          rw [Function.update_self]
          rfl
        · rw [Function.update_of_ne same]
  cases effect with
  | still _ buffers => rw [buffers]
  | releases l _ _ buffers => rw [buffers]
  | publishes l _ _ w _ buffers =>
      rw [buffers]
      exact published _ _ _ k

/-- Every port keeps its reader. -/
theorem Effect.wiring (effect : Effect g point g' point') : SameWiring g g' := by
  have attached (g : Group) (p i : Nat) : g.reader p i =
      ((g.blocks.map Block.attached)[p]?.bind fun ends => ends.1[i]?).bind id := by
    unfold Group.reader Group.input
    rw [List.getElem?_map, Option.bind_map]
    cases g.blocks[p]? with
    | none => rfl
    | some b =>
        rw [Option.bind_some, Option.bind_some, Function.comp_apply, Block.attached,
          List.getElem?_map, Option.bind_map]
        rfl
  intro p i
  cases effect with
  | still same => rw [attached, attached, same]
  | publishes l _ blocks => rw [attached, attached, blocks]
  | releases l _ blocks =>
      unfold Group.reader Group.input
      rw [blocks, List.getElem?_map]
      cases g.blocks[p]? with
      | none => rfl
      | some b =>
          simp only [Option.map_some, Option.bind_some, postReads, List.getElem?_map]
          cases b.inputs[i]? with
          | none => rfl
          | some w =>
              simp only [Option.map_some, Option.bind_some, postRead]
              cases w.bufp <;> rfl

end GraphExecutor

namespace Flowgraph

variable {n : Nat} {opts : Fin n → SchedulerTritonOptions} {wiring : Wiring n}
  {f f' : Flowgraph n} {act : Act n} {u : Fin n} {k : Nat}

/-- The group of a scheduler and its iteration. -/
def view (f : Flowgraph n) (u : Fin n) : Interleaving := ⟨f.group u, (f.schedulers u).point⟩

/-- No two schedulers write the same buffer. -/
def WritersApart (f : Flowgraph n) : Prop :=
  ∀ u v k, k ∈ outputBuffers (f.schedulers u).blocks →
    k ∈ outputBuffers (f.schedulers v).blocks → u = v

/-- Buffers with one writer keep it. -/
theorem SameWires.writersApart (same : SameWires f f') (apart : f.WritersApart) :
    f'.WritersApart := by
  intro u v k first second
  rw [same.outputBuffers] at first second
  exact apart u v k first second

/-- A scheduler sees the same group when no block and no buffer has changed. -/
theorem group_of_same (blocks : ∀ v, (f'.schedulers v).blocks = (f.schedulers v).blocks)
    (buffers : f'.buffers = f.buffers) : f'.group u = f.group u := by
  unfold group outsideReads
  simp only [blocks, buffers]

/-- A scheduler sees what its phase has made of its group. -/
theorem group_advance {g : Group} {before point : Point}
    (effect : Effect (f.group u) before g point) : (f.advance wiring u g point).group u = g := by
  have others (k : Nat) : (f.advance wiring u g point).outsideReads u k =
      f.outsideReads u k := by
    refine congrArg (· ++ _) (List.flatMap_congr fun x listed => ?_)
    rw [advance_of_ne f g point (of_decide_eq_true (List.mem_filter.mp listed).2)]
  obtain ⟨blocks, buffers⟩ := g
  unfold group
  rw [advance_self]
  refine congrArg (Group.mk blocks) (funext fun k => ?_)
  rw [others]
  exact (effect.buffers k).symm

/-- Readers that move on let no list of totals shrink. -/
theorem forall₂_outsideReads
    (ahead : ∀ v, v ≠ u → List.Forall₂ (· ≤ ·) (Block.readsOf (f.schedulers v).blocks k)
      (Block.readsOf (f'.schedulers v).blocks k))
    (outside : List.Forall₂ (· ≤ ·) (f.buffers k).outsideReads (f'.buffers k).outsideReads) :
    List.Forall₂ (· ≤ ·) (f.outsideReads u k) (f'.outsideReads u k) := by
  have apart : List.Forall₂ (fun v w => v = w ∧ v ≠ u) ((List.finRange n).filter (· ≠ u))
      ((List.finRange n).filter (· ≠ u)) :=
    List.forall₂_same.mpr fun v listed => ⟨rfl, of_decide_eq_true (List.mem_filter.mp listed).2⟩
  exact List.rel_append (List.rel_flatMap apart fun v w ⟨same, other⟩ => same ▸ ahead v other)
    outside

/-- **A step as one scheduler sees it.** Its own phases are those of its group, and all
else is what neighbours may do. -/
theorem Moved.view (moved : Moved opts wiring f act f') (apart : f.WritersApart) (u : Fin n) :
    (∃ answers, act = .turn u answers ∧
      resume answers (f.group u) (f.schedulers u).point =
        .ok (f'.group u, (f'.schedulers u).point)) ∨
    Neighbours (f.group u) (f'.group u) ∧
      (f'.schedulers u).point = (f.schedulers u).point := by
  have still (same : SameInside f f' u) (blocks : ∀ v, (f'.schedulers v).blocks =
      (f.schedulers v).blocks) (buffers : f'.buffers = f.buffers) :
      Neighbours (f.group u) (f'.group u) ∧
        (f'.schedulers u).point = (f.schedulers u).point := by
    rw [group_of_same blocks buffers]
    exact ⟨⟨rfl, fun _ _ => rfl, fun _ => Nat.le_refl _, fun _ => ⟨rfl, rfl, rfl⟩,
      fun _ => List.forall₂_refl _⟩, same.2⟩
  cases moved with
  | deliver v answers iterates w msg rest sends f₁ popped thread arrives =>
      subst popped
      have inside (x : Fin n) : SameInside f ((f.setScheduler v
          { f.schedulers v with sending := rest }).setThread w thread) x := by
        obtain ⟨blocks, point⟩ := sameInside_setScheduler
          (f.setScheduler v { f.schedulers v with sending := rest }) w x
          (s := { (f.setScheduler v { f.schedulers v with sending := rest }).schedulers w with
            thread }) rfl rfl
        obtain ⟨before, stood⟩ := sameInside_setScheduler f v x
          (s := { f.schedulers v with sending := rest }) rfl rfl
        exact ⟨blocks.trans before, point.trans stood⟩
      exact Or.inr (still (inside u) (fun x => (inside x).1) rfl)
  | thread v act move thread idle steps =>
      have inside (x : Fin n) : SameInside f (f.setThread v thread) x :=
        sameInside_setScheduler f v x rfl rfl
      exact Or.inr (still (inside u) (fun x => (inside x).1) rfl)
  | finish v answers iterates sent status events returned thread steps =>
      have blocks (x : Fin n) : ((f.setScheduler v { f.schedulers v with
          thread, point := .start }).schedulers x).blocks = (f.schedulers x).blocks := by
        rw [schedulers_setScheduler]
        split
        · rename_i same
          rw [same]
        · rfl
      by_cases same : u = v
      · subst same
        refine Or.inl ⟨answers, rfl, ?_⟩
        rw [group_of_same blocks rfl, returned, setScheduler_self]
        rfl
      · refine Or.inr (still ?_ blocks rfl)
        rw [SameInside, setScheduler_of_ne f _ same]
        exact ⟨rfl, rfl⟩
  | phase v answers iterates sent inside g point resumes =>
      have effect := effect_of_resume resumes
      by_cases same : u = v
      · subst same
        refine Or.inl ⟨answers, rfl, ?_⟩
        rw [group_advance effect, advance_self]
        exact resumes
      · right
        have own : (f.advance wiring v g point).schedulers u = f.schedulers u :=
          advance_of_ne f g point same
        rw [own]
        refine ⟨⟨?_, fun k listed => ?_, fun k => (effect.totalWritten k).1,
          fun _ => ⟨rfl, rfl, rfl⟩, fun k => forall₂_outsideReads (fun x other => ?_)
            (List.forall₂_refl _)⟩, rfl⟩
        · exact congrArg Scheduler.blocks own
        · exact (effect.totalWritten k).2 fun also => same (apart u v k listed also)
        · by_cases here : x = v
          · subst here
            rw [advance_self]
            exact effect.readsOf k
          · rw [advance_of_ne f g point here]
            exact List.forall₂_refl _
  | outside act j buffer foreign grown limits reads =>
      have buffers (k : Nat) : (f.buffers k).totalWritten ≤
            (Function.update f.buffers j buffer k).totalWritten ∧
          ((Function.update f.buffers j buffer k).bufSize = (f.buffers k).bufSize ∧
            (Function.update f.buffers j buffer k).maxBufferFill = (f.buffers k).maxBufferFill ∧
            (Function.update f.buffers j buffer k).minBufferFill = (f.buffers k).minBufferFill) ∧
          List.Forall₂ (· ≤ ·) (f.buffers k).outsideReads
            (Function.update f.buffers j buffer k).outsideReads := by
        by_cases same : k = j
        · subst same
          rw [Function.update_self]
          exact ⟨grown, limits, reads⟩
        · rw [Function.update_of_ne same]
          exact ⟨Nat.le_refl _, ⟨rfl, rfl, rfl⟩, List.forall₂_refl _⟩
      refine Or.inr ⟨⟨rfl, fun k listed => ?_, fun k => (buffers k).1, fun k => (buffers k).2.1,
        fun k => forall₂_outsideReads (fun _ _ => List.forall₂_refl _) (buffers k).2.2⟩, rfl⟩
      change (Function.update f.buffers j buffer k).totalWritten = (f.buffers k).totalWritten
      by_cases same : k = j
      · subst same
        rw [Function.update_self]
        exact Classical.byContradiction fun changed => (foreign changed).1 u listed
      · rw [Function.update_of_ne same]

/-! ## Runs -/

/-- What the executor of `u` makes of a step: its own phase, or a move of neighbours. -/
def Act.seenBy (u : Fin n) : Act n → Interleaving.Turn
  | .turn v answers => if v = u then .resume answers else .publish 0 0
  | _ => .publish 0 0

/-- A transition of the flowgraph as the executor of `u` sees it. -/
def seenBy (u : Fin n) (t : Transition.Taken (Flowgraph n) (Act n)) :
    Transition.Taken Interleaving Interleaving.Turn :=
  ⟨t.source.view u, t.label.seenBy u, t.target.view u⟩

/-- **Schedulers side by side.** A run of the flowgraph is, for each scheduler, a run of
its group between neighbours, transition by transition. -/
theorem run_seenBy {taken : List (Transition.Taken (Flowgraph n) (Act n))}
    (run : Transition.Run (Step opts wiring) f taken f') (apart : f.WritersApart) (u : Fin n) :
    Transition.Run Interleaving.Moved (f.view u) (taken.map (seenBy u)) (f'.view u) := by
  induction run with
  | nil f => exact .nil _
  | @cons source middle final act rest step _ ih =>
      refine .cons ?_ (ih (step.moved.sameWires.writersApart apart))
      rcases step.moved.view apart u with ⟨answers, same, resumes⟩ | ⟨moved, point⟩
      · subst same
        have turn : (Act.turn u answers).seenBy u = .resume answers := if_pos rfl
        rw [turn]
        exact .resume answers resumes
      · unfold Flowgraph.view
        rw [point]
        exact .neighbours _ moved

private theorem inRow_apart (items : Nat) : (inRow items).WritersApart := by
  intro u v k first second
  have same := (List.mem_singleton.mp first).symm.trans (List.mem_singleton.mp second)
  exact Fin.ext (Nat.add_right_cancel same)

/-- The second of two schedulers sees what the first one does as moves of neighbours. -/
theorem second_sees : ∃ turns σ,
    Transition.Run Interleaving.Moved ((inRow 5).view 1) turns σ ∧
      (σ.group.buffers 1).totalWritten = 5 := by
  obtain ⟨front, t, back, f, run, asleep, begins, latest, _, _, five⟩ := second_waits
  obtain ⟨before, _, _⟩ := run.split_at
  exact ⟨_, _, run_seenBy before (inRow_apart 5) 1, five⟩

end Flowgraph

end TorchDsp
