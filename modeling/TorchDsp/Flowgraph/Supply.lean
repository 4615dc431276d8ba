import TorchDsp.Executor.Readiness
import TorchDsp.Flowgraph.Network

/-! # What the neighbours of a scheduler can bring about

Blocks without scheduler can fill the buffers that a scheduler reads and read all
that it has written (`TorchDsp.Flowgraph.Outward.exists_served`). A notification then
brings a fresh scheduler to its first iteration
(`TorchDsp.Flowgraph.Starting.exists_about`).
-/

namespace TorchDsp

open GraphExecutor

namespace Flowgraph

variable {n : Nat} {opts : Fin n → SchedulerTritonOptions} {wiring : Wiring n}
  {f f' τ : Flowgraph n} {act : Act n} {u : Fin n} {k : Nat} {r : BufferReader}
  {taken : List (Transition.Taken (Flowgraph n) (Act n))}

/-- The totals of all readers of a buffer. -/
def readers (f : Flowgraph n) (k : Nat) : List Nat :=
  ((List.finRange n).flatMap fun v => Block.readsOf (f.schedulers v).blocks k) ++
    (f.buffers k).outsideReads

/-- Both ends of `u` are connected to blocks without scheduler: its first block alone
reads what they write, within the capacity, and they alone read what its last block
writes. -/
structure Outward (f : Flowgraph n) (u : Fin n) : Prop where
  blocks : (f.schedulers u).blocks ≠ []
  foreign : ∀ i r, (f.group u).reader 0 i = some r → f.Foreign r.source
  sole : ∀ i r, (f.group u).reader 0 i = some r → f.readers r.source = [r.totalRead]
  filled : ∀ i r, (f.group u).reader 0 i = some r →
    r.totalRead ≤ (f.buffers r.source).totalWritten ∧
      (f.buffers r.source).totalWritten ≤ r.totalRead + (f.buffers r.source).bufSize
  drained : ∀ last, (f.schedulers u).blocks.getLast? = some last → ∀ k ∈ last.writes,
    (∀ v, Block.readsOf (f.schedulers v).blocks k = []) ∧
      ∀ total ∈ (f.buffers k).outsideReads, total ≤ (f.buffers k).totalWritten

/-! ## Filling and draining -/

/-- A port at an end of `u` that its neighbours can serve: a reader of the first block,
or a reader, by its number, of a buffer that the last block writes. -/
def IsEnd (f : Flowgraph n) (u : Fin n) : BufferReader ⊕ Nat × Nat → Prop
  | .inl r => ∃ i, (f.group u).reader 0 i = some r
  | .inr (k, _) => ∃ last, (f.schedulers u).blocks.getLast? = some last ∧ k ∈ last.writes

/-- The neighbours have done all they can: the buffer is full, or its reader has read
all of it. -/
def Served (τ : Flowgraph n) : BufferReader ⊕ Nat × Nat → Prop
  | .inl r => (τ.buffers r.source).totalWritten = r.totalRead + (τ.buffers r.source).bufSize
  | .inr (k, i) => ∀ total, (τ.buffers k).outsideReads[i]? = some total →
      total = (τ.buffers k).totalWritten

/-- A state that only the neighbours of `u` have changed. -/
structure Supplied (f : Flowgraph n) (u : Fin n) (τ : Flowgraph n) : Prop where
  schedulers : τ.schedulers = f.schedulers
  limits : ∀ k, SameLimits f τ k
  sources : ∀ r, f.IsEnd u (.inl r) → τ.readers r.source = [r.totalRead] ∧
    r.totalRead ≤ (τ.buffers r.source).totalWritten ∧
      (τ.buffers r.source).totalWritten ≤ r.totalRead + (τ.buffers r.source).bufSize
  behind : ∀ k i, f.IsEnd u (.inr (k, i)) → ∀ total ∈ (τ.buffers k).outsideReads,
    total ≤ (τ.buffers k).totalWritten

/-- At first nothing has changed. -/
theorem Outward.supplied (outward : f.Outward u) : Supplied f u f := by
  refine ⟨rfl, fun k => ⟨rfl, rfl, rfl, rfl⟩, ?_, ?_⟩
  · rintro r ⟨i, reads⟩
    exact ⟨outward.sole i r reads, outward.filled i r reads⟩
  · rintro k i ⟨last, atEnd, writes⟩
    exact (outward.drained last atEnd k writes).2

/-- No buffer is at both ends. -/
theorem Outward.apart (outward : f.Outward u) (reads : f.IsEnd u (.inl r)) {i : Nat}
    (writes : f.IsEnd u (.inr (k, i))) : k ≠ r.source := by
  obtain ⟨j, reads⟩ := reads
  obtain ⟨last, atEnd, writes⟩ := writes
  rintro rfl
  exact outward.foreign j r reads u
    (List.mem_flatMap.mpr ⟨last, List.mem_of_getLast? atEnd, writes⟩)

/-- The neighbours fill the buffer of an input. -/
theorem Supplied.fill (supplied : Supplied f u τ) (outward : f.Outward u)
    (reads : f.IsEnd u (.inl r)) : ∃ taken τ', Transition.Run (Step opts wiring) τ taken τ' ∧
      Supplied f u τ' ∧ Served τ' (.inl r) ∧
        ∀ other, f.IsEnd u other → Served τ other → Served τ' other := by
  obtain ⟨sole, behind, within⟩ := supplied.sources r reads
  obtain ⟨m, full⟩ := Nat.exists_eq_add_of_le within
  have room : τ.Foreign r.source ∧
      τ.itemsHeld r.source + m ≤ (τ.buffers r.source).bufSize := by
    constructor
    · intro v
      rw [supplied.schedulers]
      obtain ⟨i, port⟩ := reads
      exact outward.foreign i r port v
    · have held : τ.itemsHeld r.source = (τ.buffers r.source).totalWritten -
          (τ.readers r.source).foldr min (τ.buffers r.source).totalWritten := rfl
      rw [held, sole, List.foldr_cons, List.foldr_nil]
      omega
  have step : Step opts wiring τ (.publish r.source m) { τ with
      buffers := Function.update τ.buffers r.source (postWrite m (τ.buffers r.source)) } :=
    if_pos room
  have same (k : Nat) : Function.update τ.buffers r.source
      (postWrite m (τ.buffers r.source)) k =
        if k = r.source then postWrite m (τ.buffers r.source) else τ.buffers k :=
    Function.update_apply ..
  refine ⟨_, _, .single step, ⟨supplied.schedulers, fun k =>
    (supplied.limits k).trans (step.moved.sameLimits k), fun r' reads' => ?_, fun k i writes => ?_⟩,
    ?_, ?_⟩
  · obtain ⟨sole', behind', within'⟩ := supplied.sources r' reads'
    unfold readers at sole' ⊢
    dsimp only
    rw [same]
    by_cases again : r'.source = r.source
    · rw [if_pos again]
      rw [again] at sole' ⊢
      have total : r'.totalRead = r.totalRead := by
        rw [readers, sole'] at sole
        exact (List.cons.inj sole).1
      refine ⟨sole', ?_, ?_⟩
      all_goals
        unfold postWrite
        dsimp only
        omega
    · rw [if_neg again]
      exact ⟨sole', behind', within'⟩
  · dsimp only
    rw [same, if_neg (outward.apart reads writes)]
    exact supplied.behind k i writes
  · simp only [Served, Function.update_self, postWrite]
    exact full.symm
  · rintro (r' | ⟨k, i⟩) isEnd served
    · simp only [Served, same] at served ⊢
      by_cases again : r'.source = r.source
      · rw [if_pos again]
        have total : r'.totalRead = r.totalRead := by
          have sole' := (supplied.sources r' isEnd).1
          rw [again, sole] at sole'
          exact (List.cons.inj sole').1.symm
        unfold postWrite
        dsimp only
        omega
      · rw [if_neg again]
        exact served
    · simp only [Served, same, if_neg (outward.apart reads isEnd)] at served ⊢
      exact served

/-- What a reader without scheduler has read after one of them has caught up. -/
theorem read_of_releaseOutside {buffer : Buffer} {i j m total read : Nat}
    (listed : buffer.outsideReads[i]? = some total) (all : buffer.totalWritten = total + m)
    (here : (Interleaving.releaseOutside i m buffer).outsideReads[j]? = some read) :
    read = buffer.totalWritten ∨ j ≠ i ∧ buffer.outsideReads[j]? = some read := by
  rw [Interleaving.releaseOutside, List.getElem?_modify] at here
  obtain ⟨before, there, moved⟩ := Option.map_eq_some_iff.mp here
  by_cases same : i = j
  · subst same
    rw [listed, Option.some.injEq] at there
    rw [if_pos rfl] at moved
    exact Or.inl (by omega)
  · rw [if_neg same] at moved
    exact Or.inr ⟨Ne.symm same, moved ▸ there⟩

/-- A reader of a buffer that `u` writes reads all of it. -/
theorem Supplied.drain (supplied : Supplied f u τ) (outward : f.Outward u) {i : Nat}
    (writes : f.IsEnd u (.inr (k, i))) : ∃ taken τ', Transition.Run (Step opts wiring) τ taken τ' ∧
      Supplied f u τ' ∧ Served τ' (.inr (k, i)) ∧
        ∀ other, f.IsEnd u other → Served τ other → Served τ' other := by
  cases listed : (τ.buffers k).outsideReads[i]? with
  | none =>
      refine ⟨[], τ, .nil τ, supplied, fun total here => ?_, fun _ _ served => served⟩
      rw [listed] at here
      cases here
  | some total =>
      have behind := supplied.behind k i writes total (List.mem_of_getElem? listed)
      obtain ⟨m, all⟩ := Nat.exists_eq_add_of_le behind
      have step : Step opts wiring τ (.release k i m) { τ with
          buffers := Function.update τ.buffers k
            (Interleaving.releaseOutside i m (τ.buffers k)) } := by
        simp only [Step, next, listed]
        exact if_pos (Nat.le_of_eq all.symm)
      have same (j : Nat) : Function.update τ.buffers k
          (Interleaving.releaseOutside i m (τ.buffers k)) j =
            if j = k then Interleaving.releaseOutside i m (τ.buffers k) else τ.buffers j :=
        Function.update_apply ..
      refine ⟨_, _, .single step, ⟨supplied.schedulers, fun j =>
        (supplied.limits j).trans (step.moved.sameLimits j), fun r reads => ?_,
          fun j j' writes' => ?_⟩, fun read here => ?_, ?_⟩
      · unfold readers
        dsimp only
        rw [same, if_neg (outward.apart reads writes).symm]
        exact supplied.sources r reads
      · dsimp only
        rw [same]
        by_cases again : j = k
        · subst again
          rw [if_pos rfl]
          intro read member
          obtain ⟨i', here⟩ := List.mem_iff_getElem?.mp member
          rcases read_of_releaseOutside listed all here with same | ⟨_, before⟩
          · exact Nat.le_of_eq same
          · exact supplied.behind j i writes read (List.mem_of_getElem? before)
        · rw [if_neg again]
          exact supplied.behind j j' writes'
      · simp only [Function.update_self] at here ⊢
        exact (read_of_releaseOutside listed all here).resolve_right fun other => other.1 rfl
      · rintro (r | ⟨j, j'⟩) isEnd served
        · simp only [Served, same, if_neg (outward.apart isEnd writes).symm] at served ⊢
          exact served
        · simp only [Served, same] at served ⊢
          by_cases again : j = k
          · subst again
            simp only [↓reduceIte]
            intro read here
            exact (read_of_releaseOutside listed all here).elim id fun other => served read other.2
          · rw [if_neg again]
            exact served

/-- The neighbours of `u` can serve both of its ends. -/
theorem Outward.exists_served (opts : Fin n → SchedulerTritonOptions) (wiring : Wiring n)
    (outward : f.Outward u) :
    ∃ taken τ, Transition.Run (Step opts wiring) f taken τ ∧ Supplied f u τ ∧
      ∀ goal, f.IsEnd u goal → (∀ k i, goal = .inr (k, i) →
        i < (f.buffers k).outsideReads.length) → Served τ goal := by
  let sources := ((f.group u).blocks[0]?.elim [] Block.inputs).filterMap BlockWorkInput.bufp
  let written := (f.schedulers u).blocks.getLast?.elim [] Block.writes
  let goals : List (BufferReader ⊕ Nat × Nat) := sources.map .inl ++ written.flatMap fun k =>
    (List.range (f.buffers k).outsideReads.length).map fun i => .inr (k, i)
  have isEnd : ∀ goal ∈ goals, f.IsEnd u goal := by
    intro goal member
    rcases List.mem_append.mp member with source | write
    · obtain ⟨r, listed, rfl⟩ := List.mem_map.mp source
      obtain ⟨w, port, attached⟩ := List.mem_filterMap.mp listed
      cases present : (f.group u).blocks[0]? with
      | none => rw [present] at port; cases port
      | some b =>
          rw [present] at port
          obtain ⟨i, port⟩ := List.mem_iff_getElem?.mp port
          refine ⟨i, ?_⟩
          rw [Group.reader, Group.input, present, Option.bind_some]
          exact Option.bind_eq_some_iff.mpr ⟨w, port, attached⟩
    · obtain ⟨k, listed, write⟩ := List.mem_flatMap.mp write
      obtain ⟨i, _, rfl⟩ := List.mem_map.mp write
      cases atEnd : (f.schedulers u).blocks.getLast? with
      | none => simp only [written, atEnd] at listed; cases listed
      | some last =>
          simp only [written, atEnd] at listed
          exact ⟨last, atEnd, listed⟩
  have listed : ∀ goal, f.IsEnd u goal → (∀ k i, goal = .inr (k, i) →
      i < (f.buffers k).outsideReads.length) → goal ∈ goals := by
    rintro (r | ⟨k, i⟩) isEnd bound
    · obtain ⟨i, reads⟩ := isEnd
      obtain ⟨w, port, attached⟩ := Option.bind_eq_some_iff.mp reads
      obtain ⟨b, present, port⟩ := Option.bind_eq_some_iff.mp port
      apply List.mem_append_left
      refine List.mem_map_of_mem (List.mem_filterMap.mpr ⟨w, ?_, attached⟩)
      rw [present]
      exact List.mem_of_getElem? port
    · obtain ⟨last, atEnd, writes⟩ := isEnd
      apply List.mem_append_right
      refine List.mem_flatMap.mpr ⟨k, ?_, ?_⟩
      · simp only [written, atEnd]
        exact writes
      · exact List.mem_map_of_mem (List.mem_range.mpr (bound k i rfl))
  have reach : ∀ goal ∈ goals, ∀ τ, Supplied f u τ → ∃ taken τ',
      Transition.Run (Step opts wiring) τ taken τ' ∧ Supplied f u τ' ∧ Served τ' goal ∧
        ∀ other ∈ goals, Served τ other → Served τ' other := by
    intro goal member τ supplied
    have reached : ∃ taken τ', Transition.Run (Step opts wiring) τ taken τ' ∧
        Supplied f u τ' ∧ Served τ' goal ∧
          ∀ other, f.IsEnd u other → Served τ other → Served τ' other := by
      cases goal with
      | inl r => exact supplied.fill outward (isEnd _ member)
      | inr pair => exact supplied.drain outward (isEnd _ member)
    obtain ⟨taken, τ', run, after, here, kept⟩ := reached
    exact ⟨taken, τ', run, after, here, fun other inside => kept other (isEnd other inside)⟩
  obtain ⟨taken, τ, run, supplied, all⟩ := Transition.Run.exists_of_goals (Supplied f u)
    (fun goal τ => Served τ goal) goals reach outward.supplied
  exact ⟨taken, τ, run, supplied, fun goal isEnd bound => all goal (listed goal isEnd bound)⟩

/-! ## The first iteration -/

/-- The steps of a thread outside its iterations, and what others do to it. -/
def outsideIteration (opts : SchedulerTritonOptions) (σ : ThreadWrapper.State) :
    ThreadWrapper.Act → Option ThreadWrapper.State
  | .step _ => if σ.aboutToIterate then none else ThreadWrapper.threadBody opts σ .ready
  | .requestStop => none
  | act => ThreadWrapper.next opts σ act

/-- The blocks of `f` between its buffers, with a thread of `u` outside its iteration. -/
structure Idle (f : Flowgraph n) (u : Fin n) (thread : ThreadWrapper.State) (τ : Flowgraph n) :
    Prop where
  buffers : τ.buffers = f.buffers
  blocks : ∀ v, (τ.schedulers v).blocks = (f.schedulers v).blocks
  thread : (τ.schedulers u).thread = thread
  point : (τ.schedulers u).point = .start
  sending : (τ.schedulers u).sending = []

/-- Outside its iteration the thread moves without the blocks. -/
theorem Idle.setThread {thread thread' : ThreadWrapper.State} (idle : Idle f u thread τ) :
    Idle f u thread' (τ.setThread u thread') := by
  unfold Flowgraph.setThread
  refine ⟨idle.buffers, fun v => ?_, ?_, ?_, ?_⟩
  · have same := sameInside_setScheduler τ u v
      (s := { τ.schedulers u with thread := thread' }) rfl rfl
    exact same.1.trans (idle.blocks v)
  all_goals rw [setScheduler_self]
  · exact idle.point
  · exact idle.sending

/-- A flowgraph follows the thread of a scheduler to its next iteration. -/
theorem Idle.follow (wiring : Wiring n) {thread thread' : ThreadWrapper.State}
    {acts : List ThreadWrapper.Act} (idle : Idle f u thread τ)
    (follows : Transition.follow (outsideIteration (opts u)) thread acts = some thread') :
    ∃ taken τ', Transition.Run (Step opts wiring) τ taken τ' ∧ Idle f u thread' τ' := by
  induction acts generalizing thread τ with
  | nil => cases follows; exact ⟨[], τ, .nil τ, idle⟩
  | cons act rest ih =>
      obtain ⟨middle, moves, onward⟩ := Option.bind_eq_some_iff.mp follows
      obtain ⟨taken, τ', run, after⟩ := ih idle.setThread onward
      have here := idle.thread
      suffices step : ∃ act', Step opts wiring τ act' (τ.setThread u middle) by
        obtain ⟨act', step⟩ := step
        exact ⟨_, τ', .cons step run, after⟩
      cases act with
      | step s =>
          refine ⟨.turn u { reports := fun _ => [] }, ?_⟩
          simp only [outsideIteration] at moves
          split at moves
          · cases moves
          · rename_i outside
            simp only [Step, next, turn, here, outside, Bool.false_eq_true, ↓reduceIte, moves,
              Option.map_some]
      | push msg =>
          refine ⟨.push u msg, ?_⟩
          simp only [outsideIteration] at moves
          simp only [Step, next, here, moves, Option.map_some]
      | openGate =>
          refine ⟨.openGate u, ?_⟩
          simp only [outsideIteration] at moves
          simp only [Step, next, here, moves, Option.map_some]
      | requestStop => cases moves

/-- A notification brings a fresh scheduler to its first iteration. -/
theorem Starting.exists_about (opts : Fin n → SchedulerTritonOptions) (wiring : Wiring n)
    (starting : f.Starting) (u : Fin n) : ∃ taken τ thread,
    Transition.Run (Step opts wiring) f taken τ ∧ Idle f u thread τ ∧
      thread.aboutToIterate = true := by
  obtain ⟨id, fresh⟩ := starting.thread u
  have idle : Idle f u (.initial id) f :=
    ⟨rfl, fun _ => rfl, fresh, starting.point u, starting.sending u⟩
  have follows : ∃ thread, Transition.follow (outsideIteration (opts u)) (.initial id)
      [.openGate, .push (.action .notifyAll), .step .ready, .step .ready, .step .ready,
        .step .ready, .step .ready, .step .ready, .step .ready, .step .ready] = some thread ∧
      thread.aboutToIterate = true := ⟨_, rfl, rfl⟩
  obtain ⟨thread, follows, about⟩ := follows
  obtain ⟨taken, τ, run, after⟩ := idle.follow wiring follows
  exact ⟨taken, τ, thread, run, after, about⟩

end Flowgraph

end TorchDsp
