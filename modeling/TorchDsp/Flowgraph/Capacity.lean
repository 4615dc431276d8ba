import TorchDsp.Flowgraph.Supply

/-! # Buffers that are large enough

The checks of an iteration ask for items at one end of a group and for space at the
other, and a buffer that is too small never has enough. From a fresh start between
blocks without scheduler, a scheduler can get past its checks exactly when each buffer
at its ends, full or empty, satisfies them (`TorchDsp.Flowgraph.can_work_iff`).
-/

namespace TorchDsp

open GraphExecutor

/-- The reader of a port is one of the readers of its buffer. -/
theorem Group.mem_readsOf {g : Group} {p i : Nat} {r : BufferReader}
    (reads : g.reader p i = some r) : r.totalRead ∈ Block.readsOf g.blocks r.source := by
  obtain ⟨w, port, attached⟩ := Option.bind_eq_some_iff.mp reads
  obtain ⟨b, present, listed⟩ := Option.bind_eq_some_iff.mp port
  refine List.mem_filterMap.mpr ⟨w, ?_, ?_⟩
  · exact List.mem_flatMap.mpr
      ⟨b, List.mem_of_getElem? present, List.mem_of_getElem? listed⟩
  · rw [attached, Option.bind_some, if_pos rfl]

namespace Flowgraph

variable {n : Nat} {opts : Fin n → SchedulerTritonOptions} {wiring : Wiring n}
  {f f' τ : Flowgraph n} {act : Act n} {u : Fin n} {k : Nat} {r : BufferReader}
  {taken : List (Transition.Taken (Flowgraph n) (Act n))}

/-! ## Too small a buffer -/

private theorem Moved.sameDemands (moved : Moved opts wiring f act f') (u : Fin n) :
    SameDemands (f.group u) (f'.group u) := by
  have limits (k : Nat) := moved.sameLimits k
  have kept (blocks : (f'.schedulers u).blocks = (f.schedulers u).blocks) :
      SameDemands (f.group u) (f'.group u) := by
    refine ⟨fun p i => ?_, ?_, ?_, fun k =>
      ⟨(limits k).bufSize, (limits k).most, (limits k).least⟩⟩
    · unfold Group.reader Group.input group
      rw [blocks]
    · exact congrArg (List.map Block.wires) blocks
    · exact congrArg (List.map Block.outputMultiple) blocks
  rcases moved.inside u with ⟨blocks, _⟩ | ⟨blocks, _⟩ | ⟨answers, g, point, _, _, resumes, after⟩
  · exact kept blocks
  · exact kept blocks
  · have effect := effect_of_resume resumes
    have blocks : (f'.group u).blocks = g.blocks := by
      rw [group, after, advance_self]
    refine ⟨fun p i => ?_, ?_, ?_, fun k =>
      ⟨(limits k).bufSize, (limits k).most, (limits k).least⟩⟩
    · rw [← effect.wiring p i]
      unfold Group.reader Group.input
      rw [blocks]
    · rw [blocks]
      exact effect.wires
    · rw [blocks]
      exact multiples_of_resume resumes

/-- What a check that `u` has passed says about the buffers at its ends. -/
structure Vouches (f : Flowgraph n) (u : Fin n) (τ : Flowgraph n) : Prop where
  demands : SameDemands (f.group u) (τ.group u)
  foreign : ∀ i r, (f.group u).reader 0 i = some r → τ.Foreign r.source ∧
    τ.itemsHeld r.source ≤ (τ.buffers r.source).bufSize
  inputs : (τ.schedulers u).point = .inputsChecked ∨ (τ.schedulers u).point = .outputsChecked →
    (f.group u).SizedInputs
  outputs : (τ.schedulers u).point = .outputsChecked → (f.group u).SizedOutputs

/-- What a passed check says goes on holding while others move. -/
theorem Vouches.moved (vouches : Vouches f u τ) (moved : Moved opts wiring τ act f') :
    Vouches f u f' := by
  have demands := vouches.demands.trans (moved.sameDemands u)
  have held : ∀ i r, (τ.group u).reader 0 i = some r →
      (τ.group u).itemsAvailable r ≤ (τ.buffers r.source).bufSize := by
    intro i r reads
    have both := vouches.demands.wiring 0 i
    rw [reads, Option.map_some] at both
    obtain ⟨r₀, reads₀, here⟩ := Option.map_eq_some_iff.mp both.symm
    obtain ⟨source, _⟩ := BufferReader.mk.inj here
    have holds := (vouches.foreign i r₀ reads₀).2
    rw [source, ← itemsHeld_group τ u] at holds
    refine Nat.le_trans (Nat.sub_le_sub_left ?_ _) holds
    exact foldr_min_le_of_mem (List.mem_append_left _ (Group.mem_readsOf reads))
  refine ⟨demands, fun i r reads => ?_, ?_, ?_⟩
  · obtain ⟨foreign, holds⟩ := vouches.foreign i r reads
    refine ⟨fun v listed => foreign v ?_, ?_⟩
    · rw [← moved.sameWires.outputBuffers]
      exact listed
    · rw [(moved.sameLimits r.source).bufSize]
      exact moved.itemsHeld_foreign foreign holds
  all_goals
    rcases moved.inside u with ⟨_, point⟩ | ⟨_, point⟩ |
        ⟨answers, g, point, _, _, resumes, after⟩
  · rw [point]
    exact vouches.inputs
  · rw [point]
    exact fun absurd => by rcases absurd with absurd | absurd <;> cases absurd
  · rw [after, advance_self]
    obtain ⟨first, last⟩ := checked_of_resume resumes
    rintro (checked | checked)
    · exact vouches.demands.sizedInputs (sizedInputs_of_ready held (first checked).2)
    · exact vouches.inputs (Or.inl (last checked).1)
  · rw [point]
    exact vouches.outputs
  · rw [point]
    exact Point.noConfusion
  · rw [after, advance_self]
    intro checked
    exact vouches.demands.sizedOutputs
      (sizedOutputs_of_ready ((checked_of_resume resumes).2 checked).2)

private theorem Outward.vouches (outward : f.Outward u) (starting : f.Starting) :
    Vouches f u f := by
  refine ⟨.refl _, fun i r reads => ⟨outward.foreign i r reads, ?_⟩, ?_, ?_⟩
  · obtain ⟨behind, within⟩ := outward.filled i r reads
    have held : f.itemsHeld r.source = (f.buffers r.source).totalWritten -
        (f.readers r.source).foldr min (f.buffers r.source).totalWritten := rfl
    rw [held, outward.sole i r reads, List.foldr_cons, List.foldr_nil]
    omega
  · rw [starting.point u]
    exact fun absurd => by rcases absurd with absurd | absurd <;> cases absurd
  · rw [starting.point u]
    exact Point.noConfusion

/-! ## Large enough buffers -/

private theorem foldr_min_of_forall_eq {reads : List Nat} {most : Nat}
    (same : ∀ read ∈ reads, read = most) : reads.foldr min most = most := by
  induction reads with
  | nil => rfl
  | cons first rest ih =>
      rw [List.foldr_cons, ih fun read later => same read (List.mem_cons_of_mem _ later),
        same first List.mem_cons_self, Nat.min_self]

/-- Ports whose neighbours have done all they can pass both checks. -/
theorem ready_of_served (answers : Answers) (reads : answers.readInfo = fun _ => true)
    (writes : answers.writeInfo = fun _ => true) (outward : f.Outward u)
    (supplied : Supplied f u τ)
    (served : ∀ goal, f.IsEnd u goal → (∀ k i, goal = .inr (k, i) →
      i < (f.buffers k).outsideReads.length) → Served τ goal)
    (inputs : (f.group u).SizedInputs) (outputs : (f.group u).SizedOutputs) :
    InputsReady answers (τ.group u) ∧ OutputsReady answers (τ.group u) := by
  have blocks : (τ.group u).blocks = (f.group u).blocks := by
    unfold group
    rw [supplied.schedulers]
  constructor
  · intro i w port
    rw [reads]
    cases attached : w.bufp with
    | none =>
        unfold inputReady
        rw [attached]
    | some r =>
        have reader : (f.group u).reader 0 i = some r := by
          have port : (f.group u).input 0 i = some w := by
            unfold Group.input at port ⊢
            rwa [blocks] at port
          rw [Group.reader, port, Option.bind_some, attached]
        have full : (τ.buffers r.source).totalWritten =
            r.totalRead + (τ.buffers r.source).bufSize :=
          served (.inl r) ⟨i, reader⟩ fun _ _ absurd => by cases absurd
        have suits := inputs i r reader
        rw [show ((f.group u).buffers r.source).bufSize = ((τ.group u).buffers r.source).bufSize
          from (supplied.limits r.source).bufSize.symm] at suits
        refine inputReady_of_suits attached ?_ suits
        change (τ.buffers r.source).totalWritten - r.totalRead = (τ.buffers r.source).bufSize
        omega
  · intro last atEnd i v port
    rw [writes]
    rw [blocks] at atEnd
    cases buffered : v.bufp with
    | none =>
        unfold outputReady
        rw [buffered]
    | some k =>
        have own : k ∈ last.writes :=
          List.mem_filterMap.mpr ⟨v, List.mem_of_getElem? port, buffered⟩
        have limits := supplied.limits k
        have caughtUp : ∀ total ∈ (τ.group u).readsOf k, total = (τ.buffers k).totalWritten := by
          intro total member
          have others (x : Fin n) : Block.readsOf (τ.schedulers x).blocks k = [] := by
            rw [supplied.schedulers]
            exact (outward.drained last atEnd k own).1 x
          change total ∈ Block.readsOf (τ.schedulers u).blocks k ++ τ.outsideReads u k at member
          rw [others u, List.nil_append, outsideReads, List.flatMap_congr fun x _ => others x,
            List.flatMap_eq_nil_iff.mpr fun _ _ => rfl, List.nil_append] at member
          obtain ⟨j, listed⟩ := List.mem_iff_getElem?.mp member
          refine served (.inr (k, j)) ⟨last, atEnd, own⟩ (fun k' j' same => ?_) total listed
          cases same
          rw [← limits.readers]
          exact (List.getElem?_eq_some_iff.mp listed).1
        have least := foldr_min_of_forall_eq caughtUp
        refine outputReady_of_suits buffered ?_ ?_
        · change (τ.buffers k).bufSize - ((τ.buffers k).totalWritten -
            ((τ.group u).readsOf k).foldr min (τ.buffers k).totalWritten) = (τ.buffers k).bufSize
          rw [least, Nat.sub_self, Nat.sub_zero]
        · obtain ⟨minFill, count, positive, space, int, maxFill, divides⟩ :=
            outputs last atEnd k own
          change (f.buffers k).minBufferFill ≤ (f.buffers k).bufSize at minFill
          change count ≤ (f.buffers k).bufSize at space
          change 0 < (f.buffers k).maxBufferFill → count ≤ (f.buffers k).maxBufferFill at maxFill
          rw [← limits.bufSize] at minFill space
          rw [← limits.least] at minFill
          rw [← limits.most] at maxFill
          exact ⟨minFill, count, positive, space, int, maxFill, divides⟩

/-- The first two phases of an iteration whose ports are ready. -/
theorem exists_checked (opts : Fin n → SchedulerTritonOptions) (wiring : Wiring n)
    {answers : Answers} {thread : ThreadWrapper.State} (idle : Idle f u thread τ)
    (about : thread.aboutToIterate = true) (filled : (f.schedulers u).blocks ≠ [])
    (ready : InputsReady answers (τ.group u) ∧ OutputsReady answers (τ.group u)) :
    ∃ taken f', Transition.Run (Step opts wiring) τ taken f' ∧
      (f'.schedulers u).point = .outputsChecked := by
  have present : (τ.group u).blocks ≠ [] := by
    change (τ.schedulers u).blocks ≠ []
    rwa [idle.blocks]
  obtain ⟨g, first⟩ := checkFirst_of_ready present ready.1
  have same := (checkFirst_eq_ok first).1
  have enters : resume answers (τ.group u) .start = .ok (g, .inputsChecked) := by
    simp only [resume, first, Except.mapError, bind, Except.bind, pure, Except.pure, ↓reduceIte]
  have toInputs : Step opts wiring τ (.turn u answers) (τ.advance wiring u g .inputsChecked) := by
    simp only [Step, next, turn, idle.thread, about, idle.sending, idle.point, enters, ↓reduceIte]
  have seen : (τ.advance wiring u g .inputsChecked).group u = g :=
    group_advance (effect_of_resume enters)
  have room : OutputsReady answers g :=
    outputsReady_of_same same.blocks.symm (fun i k _ => by
      rw [same.spaceAvailable_eq, same.buffers]
      exact ⟨rfl, rfl, rfl⟩) ready.2
  have stillPresent : g.blocks ≠ [] := by
    intro none
    have lengths := congrArg List.length same.blocks
    rw [none, List.map_nil, List.length_nil, List.length_map] at lengths
    exact present (List.eq_nil_of_length_eq_zero lengths.symm)
  obtain ⟨g', last⟩ := checkLast_of_ready stillPresent room
  have passes : resume answers g .inputsChecked = .ok (g', .outputsChecked) := by
    simp only [resume, last, Except.mapError, bind, Except.bind, pure, Except.pure, ↓reduceIte]
  have toOutputs : Step opts wiring (τ.advance wiring u g .inputsChecked) (.turn u answers)
      ((τ.advance wiring u g .inputsChecked).advance wiring u g' .outputsChecked) := by
    have here : (τ.advance wiring u g .inputsChecked).schedulers u = _ := advance_self ..
    simp only [Step, next, turn, here, idle.thread, about, Point.events, List.drop_nil,
      List.flatMap_nil, seen, passes, ↓reduceIte]
  refine ⟨_, _, .cons toInputs (.single toOutputs), ?_⟩
  rw [advance_self]

/-- **Which schedulers can work.** A scheduler that starts afresh between blocks
without scheduler can get past its checks exactly when its first block's buffers can
hold the items that their readers ask for, and its last block's buffers have room for
a count that it may be handed. Otherwise every iteration of every run is blocked. -/
theorem can_work_iff (opts : Fin n → SchedulerTritonOptions) (wiring : Wiring n)
    (f : Flowgraph n) (u : Fin n) (starting : f.Starting) (outward : f.Outward u) :
    (∃ taken f', Transition.Run (Step opts wiring) f taken f' ∧
      (f'.schedulers u).point = .outputsChecked) ↔
      (f.group u).SizedInputs ∧ (f.group u).SizedOutputs := by
  constructor
  · rintro ⟨taken, f', run, checked⟩
    have vouches := run.invariant_of_step (Vouches f u) (outward.vouches starting)
      fun _ _ _ step vouches => vouches.moved step.moved
    exact ⟨vouches.inputs (Or.inr checked), vouches.outputs checked⟩
  · rintro ⟨inputs, outputs⟩
    obtain ⟨supplying, τ, supplies, supplied, served⟩ :=
      outward.exists_served opts wiring
    have fresh : τ.Starting := by
      obtain ⟨thread, point, sending⟩ := starting
      refine ⟨?_, ?_, ?_⟩
      all_goals rw [supplied.schedulers]
      · exact thread
      · exact point
      · exact sending
    obtain ⟨waking, τ', thread, wakes, idle, about⟩ := fresh.exists_about opts wiring u
    have ready := ready_of_served { reports := fun _ => [] } rfl rfl outward supplied served inputs
      outputs
    rw [← group_of_same idle.blocks idle.buffers] at ready
    obtain ⟨checking, f', checks, checked⟩ := exists_checked opts wiring idle
      about (by rw [supplied.schedulers]; exact outward.blocks) ready
    exact ⟨supplying ++ (waking ++ checking), f', supplies.append (wakes.append checks), checked⟩

/-- A block that computes whole batches of items, between buffers of eight items. -/
def lone (batch : Nat) : Flowgraph 1 where
  schedulers := fun _ =>
    { thread := .initial 0
      blocks := [{ kind := .triton true, outputMultiple := some batch
                   inputs := [{ bufp := some ⟨0, 0, 0, 0⟩ }], outputs := [{ bufp := some 1 }] }] }
  buffers := fun k => { bufSize := 8, totalWritten := 0, outsideReads := if k = 1 then [0] else [] }

private theorem lone_starting (batch : Nat) : (lone batch).Starting :=
  ⟨fun _ => ⟨0, rfl⟩, fun _ => rfl, fun _ => rfl⟩

private theorem lone_outward (batch : Nat) : (lone batch).Outward 0 := by
  have port : ∀ i r, ((lone batch).group 0).reader 0 i = some r → r = ⟨0, 0, 0, 0⟩ := by
    intro i r reads
    match i with
    | 0 => cases reads; rfl
    | i + 1 => cases reads
  refine ⟨List.cons_ne_nil _ _, ?_, ?_, ?_, ?_⟩
  · intro i r reads v listed
    cases port i r reads
    cases List.mem_singleton.mp listed
  · intro i r reads
    cases port i r reads
    rfl
  · intro i r reads
    cases port i r reads
    exact ⟨Nat.le_refl _, Nat.zero_le _⟩
  · intro last atEnd k writes
    cases atEnd
    cases List.mem_singleton.mp writes
    exact ⟨fun _ => rfl, fun total member => Nat.le_of_eq (List.mem_singleton.mp member)⟩

/-- Batches of four items fit, batches of nine never do. -/
theorem batches_fit :
    (∃ taken f', Transition.Run (Step (fun _ => {}) ⟨fun _ _ => [], fun _ _ => []⟩)
      (lone 4) taken f' ∧ (f'.schedulers 0).point = .outputsChecked) ∧
    ¬ ∃ taken f', Transition.Run (Step (fun _ => {}) ⟨fun _ _ => [], fun _ _ => []⟩)
      (lone 9) taken f' ∧ (f'.schedulers 0).point = .outputsChecked := by
  constructor
  · refine (can_work_iff _ _ (lone 4) 0 (lone_starting 4) (lone_outward 4)).mpr ⟨?_, ?_⟩
    · intro i r reads
      match i with
      | 0 => cases reads; exact ⟨by decide, fun absurd => by cases absurd⟩
      | i + 1 => cases reads
    · intro last atEnd k writes
      cases atEnd
      cases List.mem_singleton.mp writes
      exact ⟨Nat.zero_le _, 4, (by decide : 0 < 4), (by decide : 4 ≤ 8), by decide,
        fun limited => (Nat.lt_irrefl 0 limited).elim, (by decide : 4 % 2 ^ 32 ∣ 4)⟩
  · rw [can_work_iff _ _ (lone 9) 0 (lone_starting 9) (lone_outward 9)]
    rintro ⟨_, outputs⟩
    obtain ⟨_, count, positive, space, _, _, divides⟩ :=
      outputs _ rfl 1 (List.mem_singleton_self 1)
    have least : 9 ≤ count := Nat.le_of_dvd positive divides
    have most : count ≤ 8 := space
    omega

end Flowgraph

end TorchDsp
