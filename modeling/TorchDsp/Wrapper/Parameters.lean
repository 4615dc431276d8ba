import Mathlib.Logic.Function.Basic
import TorchDsp.Wrapper.Order

/-! # Requests to the blocks of a worker

Parameter requests and messages to ports travel in the queue of the worker, which
carries them out on its blocks between two iterations. However they are interleaved
with everything else, they have the effect of being carried out one after the other in
the order in which they are pushed (`TorchDsp.ControlPlane.requests_in_order`), up to
the first EXIT message if that ends the worker
(`TorchDsp.ControlPlane.requests_before_exit`).
-/

namespace TorchDsp

/-- What a block does with a request, whose parameter action it may change. -/
structure BlockInterface (β π : Type) where
  onParameterQuery : β → π → β × π
  onParameterChange : β → π → β × π

/-- `param_query_action` and `param_change_action`. -/
structure ParameterAction (π : Type) where
  blkid : Nat
  paramAction : π
  /-- The callback, if it is not null. -/
  cbFcn : Option Nat
  deriving DecidableEq, Repr

/-- What a message to the blocks points to. -/
inductive Request (β π μ : Type)
  /-- A message to a port, whose callback acts on the blocks. -/
  | msgport (callback : μ → (Nat → β) → Nat → β) (message : μ)
  | query (item : ParameterAction π)
  | change (item : ParameterAction π)

/-- The block that a parameter request is for. -/
def Request.blkid {β π μ : Type} : Request β π μ → Option Nat
  | .query item | .change item => some item.blkid
  | .msgport .. => none

/-- The blocks, and the calls of the requests' callbacks. -/
structure BlockStore (β π : Type) where
  blocks : Nat → β
  replies : List (Nat × π) := []

/-- Whether a message carries a request to the blocks. -/
def SchedulerMessage.carries : SchedulerMessage → Bool
  | .msgportMessage | .parameterQuery | .parameterChange => true
  | .action _ | .other => false

namespace ThreadWrapper

variable {β π μ : Type}

/-- `d_block_id_to_block_map`: for the id of a block its position. -/
def blockIdToBlockMap (ids : List Nat) : Nat → Option Nat :=
  ids.zipIdx.foldl (fun map entry => Function.update map entry.1 (some entry.2)) fun _ => none

/-- What the two handlers have in common. Without a result, they use a block that is
not in the map. -/
def handleParameter (on : β → π → β × π) (ids : List Nat) (item : ParameterAction π)
    (store : BlockStore β π) : Option (BlockStore β π) :=
  (blockIdToBlockMap ids item.blkid).map fun b =>
    let (block, action) := on (store.blocks b) item.paramAction
    { blocks := Function.update store.blocks b block
      replies := store.replies ++ item.cbFcn.toList.map (·, action) }

def handleParameterQuery (interface : BlockInterface β π) (ids : List Nat) :
    ParameterAction π → BlockStore β π → Option (BlockStore β π) :=
  handleParameter interface.onParameterQuery ids

def handleParameterChange (interface : BlockInterface β π) (ids : List Nat) :
    ParameterAction π → BlockStore β π → Option (BlockStore β π) :=
  handleParameter interface.onParameterChange ids

/-- What the thread body does with a request. -/
def carryOut (interface : BlockInterface β π) (ids : List Nat) (store : BlockStore β π) :
    Request β π μ → Option (BlockStore β π)
  | .msgport callback message => some { store with blocks := callback message store.blocks }
  | .query item => handleParameterQuery interface ids item store
  | .change item => handleParameterChange interface ids item store

/-- Requests one after the other. -/
def carryOutAll (interface : BlockInterface β π) (ids : List Nat) (store : BlockStore β π)
    (requests : List (Request β π μ)) : Option (BlockStore β π) :=
  requests.foldlM (carryOut interface ids) store

end ThreadWrapper

/-- The type of the message that carries a request. -/
def Request.message {β π μ : Type} : Request β π μ → SchedulerMessage
  | .msgport .. => .msgportMessage
  | .query _ => .parameterQuery
  | .change _ => .parameterChange

/-- What another thread pushes. -/
inductive Letter (β π μ : Type)
  | action (action : SchedulerAction)
  | request (request : Request β π μ)
  | other

namespace Letter

variable {β π μ : Type}

def message : Letter β π μ → SchedulerMessage
  | .action asked => .action asked
  | .request item => item.message
  | .other => .other

def requests : Letter β π μ → List (Request β π μ)
  | .request item => [item]
  | .action _ | .other => []

end Letter

/-- A worker with its blocks. -/
structure ControlPlane (β π μ : Type) where
  thread : ThreadWrapper.State
  /-- The requests that the messages in hand and in the queue point to, in their order. -/
  requests : List (Request β π μ)
  store : BlockStore β π
  /-- The thread has used a null pointer. -/
  crashed : Bool := false

namespace ControlPlane

open ThreadWrapper

variable {β π μ : Type}

inductive Act (β π μ : Type)
  | step (s : ExecutorIterationStatus)
  | push (letter : Letter β π μ)
  | openGate
  | requestStop

/-- What the thread sees of an action. -/
def Act.plain : Act β π μ → ThreadWrapper.Act
  | .step s => .step s
  | .push letter => .push letter.message
  | .openGate => .openGate
  | .requestStop => .requestStop

/-- The requests that arrive. -/
def Act.requests : Act β π μ → List (Request β π μ)
  | .push letter => letter.requests
  | .step _ | .openGate | .requestStop => []

/-- The thread is about to carry out a request. -/
def serves (σ : ControlPlane β π μ) : Bool :=
  σ.thread.pc.inHand.any SchedulerMessage.carries

/-- The worker among the other threads, until it crashes. -/
def next (interface : BlockInterface β π) (ids : List Nat) (opts : SchedulerTritonOptions)
    (σ : ControlPlane β π μ) (act : Act β π μ) : Option (ControlPlane β π μ) :=
  if σ.crashed then none
  else
    match act, σ.serves, σ.requests with
    | .step s, true, request :: rest =>
        match carryOut interface ids σ.store request with
        | none => some { σ with crashed := true }
        | some store => (threadBody opts σ.thread s).map fun thread =>
            { σ with thread, requests := rest, store }
    | act, _, _ => (ThreadWrapper.next opts σ.thread act.plain).map fun thread =>
        { σ with thread, requests := σ.requests ++ act.requests }

def Step (interface : BlockInterface β π) (ids : List Nat) (opts : SchedulerTritonOptions)
    (σ : ControlPlane β π μ) (act : Act β π μ) (σ' : ControlPlane β π μ) : Prop :=
  next interface ids opts σ act = some σ'

def initial (id : Nat) (blocks : Nat → β) : ControlPlane β π μ where
  thread := .initial id
  requests := []
  store := { blocks }

/-- What can happen to a worker with its blocks. -/
inductive Moved (interface : BlockInterface β π) (ids : List Nat) (opts : SchedulerTritonOptions)
    (σ : ControlPlane β π μ) : Act β π μ → ControlPlane β π μ → Prop
  | other (act : Act β π μ) {thread : ThreadWrapper.State}
      (idle : ∀ s, act = .step s → σ.serves = false ∨ σ.requests = [])
      (step : ThreadWrapper.Step opts σ.thread act.plain thread) :
      Moved interface ids opts σ act { σ with thread, requests := σ.requests ++ act.requests }
  | carryOut (s : ExecutorIterationStatus) (serves : σ.serves = true) (request : Request β π μ)
      (rest : List (Request β π μ)) (first : σ.requests = request :: rest) {store : BlockStore β π}
      (carries : ThreadWrapper.carryOut interface ids σ.store request = some store)
      {thread : ThreadWrapper.State} (step : ThreadWrapper.Step opts σ.thread (.step s) thread) :
      Moved interface ids opts σ (.step s) { σ with thread, requests := rest, store }
  | crash (s : ExecutorIterationStatus) (serves : σ.serves = true) (request : Request β π μ)
      (rest : List (Request β π μ)) (first : σ.requests = request :: rest)
      (fails : ThreadWrapper.carryOut interface ids σ.store request = none) :
      Moved interface ids opts σ (.step s) { σ with crashed := true }

variable {interface : BlockInterface β π} {ids : List Nat} {opts : SchedulerTritonOptions}
  {σ σ' : ControlPlane β π μ} {act : Act β π μ} {id : Nat} {blocks : Nat → β}
  {taken : List (Transition.Taken (ControlPlane β π μ) (Act β π μ))}

/-- Every step is one of the things that can happen to a worker that has not crashed. -/
theorem Step.moved (step : Step interface ids opts σ act σ') :
    σ.crashed = false ∧ Moved interface ids opts σ act σ' := by
  unfold Step next at step
  split at step
  · cases step
  · rename_i runs
    refine ⟨Bool.eq_false_iff.mpr runs, ?_⟩
    split at step
    · rename_i s request rest serves first
      split at step
      · rename_i fails
        cases step
        exact .crash s serves request rest first fails
      · rename_i store carries
        obtain ⟨thread, moves, rfl⟩ := Option.map_eq_some_iff.mp step
        exact .carryOut s serves request rest first carries moves
    · rename_i others
      obtain ⟨thread, moves, rfl⟩ := Option.map_eq_some_iff.mp step
      refine .other _ (fun s same => ?_) moves
      cases serves : σ.serves with
      | false => exact Or.inl rfl
      | true =>
          cases first : σ.requests with
          | nil => exact Or.inr rfl
          | cons request rest => exact (others s request rest same serves first).elim

/-! ## The order of requests -/

/-- The requests that other threads have pushed in a run. -/
def pushedRequests (taken : List (Transition.Taken (ControlPlane β π μ) (Act β π μ))) :
    List (Request β π μ) :=
  taken.flatMap fun t => t.label.requests

private theorem carries_message (request : Request β π μ) : request.message.carries = true := by
  cases request <;> rfl

private theorem filter_messages (act : Act β π μ) :
    act.plain.messages.filter SchedulerMessage.carries = act.requests.map Request.message := by
  cases act with
  | push letter =>
      cases letter with
      | request item => exact List.filter_cons_of_pos (carries_message item)
      | action | other => rfl
  | step | openGate | requestStop => rfl

/-- Requests in their order: those that have been carried out, and those to come, to
which the pending messages point. -/
structure Ordered (interface : BlockInterface β π) (ids : List Nat) (blocks : Nat → β)
    (arrived : List (Request β π μ)) (σ : ControlPlane β π μ) (past : List (Request β π μ)) :
    Prop where
  arrived : arrived = past ++ σ.requests
  store : carryOutAll interface ids { blocks } past = some σ.store
  handled : (handledMessages σ.thread.log).filter SchedulerMessage.carries =
    past.map Request.message
  pending : σ.thread.pending.filter SchedulerMessage.carries = σ.requests.map Request.message
  crashed : σ.crashed = true → ∃ request rest, σ.requests = request :: rest ∧
    carryOut interface ids σ.store request = none

/-- The message in hand points to a request exactly when the thread serves one. -/
theorem handles_of_serves (s : ExecutorIterationStatus) :
    (σ.serves = true → ∃ msg, (ThreadWrapper.Act.step s).handles σ.thread = [msg] ∧
      msg.carries = true) ∧
    (σ.serves = false →
      ((ThreadWrapper.Act.step s).handles σ.thread).filter SchedulerMessage.carries = []) := by
  unfold serves ThreadWrapper.Act.handles
  cases σ.thread.pc with
  | handle msg =>
      simp only [Pc.inHand, List.any_cons, List.any_nil, Bool.or_false]
      exact ⟨fun carries => ⟨msg, rfl, carries⟩, fun none =>
        List.filter_cons_of_neg (by rw [none]; exact Bool.false_ne_true)⟩
  | startGate | outer | drain | pop | work | exited =>
      exact ⟨fun absurd => (Bool.false_ne_true absurd).elim, fun _ => rfl⟩

/-- Every step keeps the requests in their order. -/
theorem Ordered.step {arrived past : List (Request β π μ)}
    (ordered : Ordered interface ids blocks arrived σ past)
    (step : Step interface ids opts σ act σ') :
    ∃ past', Ordered interface ids blocks (arrived ++ act.requests) σ' past' := by
  obtain ⟨split, store, handled, pending, _⟩ := ordered
  obtain ⟨runs, moved⟩ := step.moved
  cases moved with
  | @other _ thread idle moves =>
      have order := moves.in_order SchedulerMessage.carries rfl
      rw [pending, filter_messages] at order
      have none : (act.plain.handles σ.thread).filter SchedulerMessage.carries = [] := by
        cases act with
        | step s =>
            cases serves : σ.serves with
            | false => exact (handles_of_serves s).2 serves
            | true =>
                have nothing := (idle s rfl).resolve_left (by rw [serves]; exact Bool.noConfusion)
                rw [nothing, List.map_nil, Act.requests, List.map_nil, List.append_nil] at order
                exact (List.append_eq_nil_iff.mp order).1
        | push | openGate | requestStop => rfl
      refine ⟨past, ?_, store, ?_, ?_, fun crashed => ?_⟩
      · rw [split, List.append_assoc]
      · rw [moves.handled, List.filter_append, none, List.append_nil, handled]
      · rw [none, List.nil_append] at order
        rw [order, List.map_append]
      · exact (Bool.false_ne_true (runs.symm.trans crashed)).elim
  | @carryOut s serves request rest first store' carries thread moves =>
      obtain ⟨msg, inHand, requested⟩ := (handles_of_serves s).1 serves
      have order := moves.in_order SchedulerMessage.carries rfl
      rw [pending, first, inHand, List.filter_cons_of_pos requested, List.filter_nil,
        List.singleton_append, List.map_cons] at order
      obtain ⟨same, later⟩ := List.cons.inj (order.trans (List.append_nil _))
      refine ⟨past ++ [request], ?_, ?_, ?_, later, fun crashed => ?_⟩
      · rw [Act.requests, List.append_nil, split, first, List.append_assoc, List.singleton_append]
      · rw [carryOutAll, List.foldlM_append] at *
        rw [store]
        simp only [Option.bind_eq_bind, Option.bind_some, List.foldlM_cons, List.foldlM_nil,
          carries, Option.pure_def]
      · rw [moves.handled, inHand, List.filter_append, handled, List.filter_cons_of_pos requested,
          List.filter_nil, same, List.map_append, List.map_singleton]
      · exact (Bool.false_ne_true (runs.symm.trans crashed)).elim
  | crash s serves request rest first fails =>
      refine ⟨past, ?_, store, handled, pending, fun _ => ⟨request, rest, first, fails⟩⟩
      rw [Act.requests, List.append_nil]
      exact split

private theorem ordered_of_run
    (run : Transition.Run (Step interface ids opts) (initial id blocks) taken σ) :
    ∃ past, Ordered interface ids blocks (pushedRequests taken) σ past := by
  have all {first last : ControlPlane β π μ}
      {taken : List (Transition.Taken (ControlPlane β π μ) (Act β π μ))}
      {arrived past : List (Request β π μ)}
      (run : Transition.Run (Step interface ids opts) first taken last)
      (ordered : Ordered interface ids blocks arrived first past) :
      ∃ past', Ordered interface ids blocks (arrived ++ pushedRequests taken) last past' := by
    induction run generalizing arrived past with
    | nil => exact ⟨past, by rwa [pushedRequests, List.flatMap_nil, List.append_nil]⟩
    | cons step _ ih =>
        obtain ⟨past', after⟩ := ordered.step step
        obtain ⟨past'', final⟩ := ih after
        exact ⟨past'', by rwa [List.append_assoc] at final⟩
  have start : Ordered interface ids blocks ([] : List (Request β π μ)) (initial id blocks) [] :=
    ⟨rfl, rfl, rfl, rfl, fun absurd => (Bool.false_ne_true absurd).elim⟩
  exact all run start

private theorem blockIdToBlockMap_eq_none_iff {blkid : Nat} :
    blockIdToBlockMap ids blkid = none ↔ blkid ∉ ids := by
  have loop (entries : List (Nat × Nat)) (map : Nat → Option Nat) :
      entries.foldl (fun (map : Nat → Option Nat) entry =>
        Function.update map entry.1 (some entry.2)) map blkid = none ↔
        map blkid = none ∧ blkid ∉ entries.map Prod.fst := by
    induction entries generalizing map with
    | nil => simp
    | cons entry rest ih =>
        rw [List.foldl_cons, ih, List.map_cons, List.mem_cons, not_or, ← and_assoc]
        refine and_congr_left fun _ => ?_
        by_cases same : blkid = entry.1
        · rw [same, Function.update_self]
          exact iff_of_false (Option.some_ne_none _) fun absurd => absurd.2 rfl
        · rw [Function.update_of_ne same]
          exact (and_iff_left same).symm
  rw [blockIdToBlockMap, loop, List.zipIdx_map_fst]
  exact and_iff_right rfl

/-- Only a request to a block that is not there fails. -/
theorem carryOut_eq_none_iff {store : BlockStore β π} {request : Request β π μ} :
    carryOut interface ids store request = none ↔ ∃ blkid, request.blkid = some blkid ∧
      blkid ∉ ids := by
  cases request with
  | msgport callback message =>
      exact iff_of_false (Option.some_ne_none _) fun ⟨_, absurd, _⟩ => by cases absurd
  | query item | change item =>
      simp only [carryOut, handleParameterQuery, handleParameterChange, handleParameter,
        Option.map_eq_none_iff, Request.blkid, Option.some.injEq, exists_eq_left']
      exact blockIdToBlockMap_eq_none_iff

/-- **Requests have the effect of being carried out one after the other.** However
the threads are interleaved, the blocks and the callbacks of a worker are what the
requests carried out so far make of them in the order in which they were pushed; these
are the ones whose messages it has handled. All others are still to come, in their
order, and their messages are pending. A worker crashes only over a request to a block
that it does not have. -/
theorem requests_in_order (interface : BlockInterface β π) (ids : List Nat)
    (opts : SchedulerTritonOptions) (id : Nat) (blocks : Nat → β)
    (taken : List (Transition.Taken (ControlPlane β π μ) (Act β π μ))) (σ : ControlPlane β π μ)
    (run : Transition.Run (Step interface ids opts) (initial id blocks) taken σ) :
    ∃ past, pushedRequests taken = past ++ σ.requests ∧
      carryOutAll interface ids { blocks } past = some σ.store ∧
      (handledMessages σ.thread.log).filter SchedulerMessage.carries =
        past.map Request.message ∧
      σ.thread.pending.filter SchedulerMessage.carries = σ.requests.map Request.message ∧
      (σ.crashed = true → ∃ request rest blkid, σ.requests = request :: rest ∧
        request.blkid = some blkid ∧ blkid ∉ ids) := by
  obtain ⟨past, ordered⟩ := ordered_of_run run
  refine ⟨past, ordered.arrived, ordered.store, ordered.handled, ordered.pending,
    fun crashed => ?_⟩
  obtain ⟨request, rest, first, fails⟩ := ordered.crashed crashed
  obtain ⟨blkid, named, missing⟩ := carryOut_eq_none_iff.mp fails
  exact ⟨request, rest, blkid, first, named, missing⟩

/-! ## The requests before EXIT -/

/-- Without its requests, a worker that has not crashed is a worker as before. -/
theorem run_plain {first : ControlPlane β π μ}
    (run : Transition.Run (Step interface ids opts) first taken σ) (runs : σ.crashed = false) :
    ∃ plain, Transition.Run (ThreadWrapper.Step opts) first.thread plain σ.thread ∧
      plain.map Transition.Taken.label = taken.map fun t => t.label.plain := by
  induction run with
  | nil σ => exact ⟨[], .nil _, rfl⟩
  | @cons source middle final act rest step onward ih =>
      obtain ⟨plain, after, labels⟩ := ih runs
      have stepped : ThreadWrapper.Step opts source.thread act.plain middle.thread := by
        cases step.moved.2 with
        | other _ idle moves => exact moves
        | carryOut s serves request rest first carries moves => exact moves
        | crash s serves request others first fails =>
            cases onward with
            | nil => cases runs
            | cons next _ => exact (Bool.noConfusion next.moved.1 : False).elim
      exact ⟨_, .cons stepped after, by rw [List.map_cons, labels, List.map_cons]⟩

/-- Only EXIT is seen as EXIT. -/
theorem eq_exit_of_plain (seen : act.plain = .push (.action .exit)) :
    act = .push (.action .exit) := by
  cases act with
  | push letter =>
      cases letter with
      | action asked => cases seen; rfl
      | request item => cases item <;> cases seen
      | other => cases seen
  | step | openGate | requestStop => cases seen

/-- Only `stop()` is seen as `stop()`. -/
private theorem eq_requestStop_of_plain (seen : act.plain = .requestStop) : act = .requestStop := by
  cases act with
  | requestStop => rfl
  | step | push | openGate => cases seen

/-- What is seen of the requests that were pushed is their messages. -/
private theorem pushedMessages_of_plain
    {plain : List (Transition.Taken ThreadWrapper.State ThreadWrapper.Act)}
    (labels : taken.map (fun t => t.label.plain) = plain.map Transition.Taken.label) :
    (pushedMessages plain).filter SchedulerMessage.carries =
      (pushedRequests taken).map Request.message := by
  have arrived : pushedMessages plain = taken.flatMap fun t => t.label.plain.messages := by
    rw [pushedMessages, ← List.flatMap_map Transition.Taken.label, ← labels, List.flatMap_map]
  rw [arrived, pushedRequests, List.filter_flatMap, List.map_flatMap]
  exact List.flatMap_congr fun t _ => filter_messages t.label

/-- **The requests before EXIT are carried out, and no others.** A worker that nobody
asks to stop ends with its blocks and callbacks as the requests pushed before the first
EXIT message make them, whose messages are the ones it has handled; what was pushed
later is never carried out and stays in the queue. -/
theorem requests_before_exit (interface : BlockInterface β π) (ids : List Nat)
    (opts : SchedulerTritonOptions) (id : Nat) (blocks : Nat → β)
    (taken : List (Transition.Taken (ControlPlane β π μ) (Act β π μ))) (σ : ControlPlane β π μ)
    (run : Transition.Run (Step interface ids opts) (initial id blocks) taken σ)
    (runs : σ.crashed = false) (unasked : ∀ t ∈ taken, t.label ≠ .requestStop)
    (exited : σ.thread.pc = .exited) :
    ∃ front t back, taken = front ++ t :: back ∧ t.label = .push (.action .exit) ∧
      (∀ t' ∈ front, t'.label ≠ .push (.action .exit)) ∧
      carryOutAll interface ids { blocks } (pushedRequests front) = some σ.store ∧
      σ.requests = pushedRequests back ∧
      (handledMessages σ.thread.log).filter SchedulerMessage.carries =
        (pushedRequests front).map Request.message ∧
      σ.thread.pending.filter SchedulerMessage.carries = σ.requests.map Request.message := by
  obtain ⟨past, ordered⟩ := ordered_of_run run
  obtain ⟨plain, after, labels⟩ := run_plain run runs
  have patient : ∀ t ∈ plain, t.label ≠ .requestStop := by
    intro t member stops
    have listed := List.mem_map_of_mem (f := Transition.Taken.label) member
    rw [labels] at listed
    obtain ⟨t', member', same⟩ := List.mem_map.mp listed
    exact unasked t' member' (eq_requestStop_of_plain (same.trans stops))
  obtain ⟨front', t', back', rfl, exit, first, handled⟩ :=
    handled_before_exit after patient exited
  rw [List.map_append, List.map_cons] at labels
  obtain ⟨front, rest, rfl, fronts, tail⟩ := List.map_eq_append_iff.mp labels.symm
  obtain ⟨t, back, rfl, here, backs⟩ := List.map_eq_cons_iff.mp tail
  refine ⟨front, t, back, rfl, eq_exit_of_plain (here.trans exit), fun t member same => ?_, ?_⟩
  · have listed := List.mem_map_of_mem (f := fun t => t.label.plain) member
    rw [fronts, same] at listed
    obtain ⟨t', member', label⟩ := List.mem_map.mp listed
    exact first t' member' label
  · have counted := pushedMessages_of_plain fronts
    have length := congrArg List.length ordered.handled
    rw [(handled SchedulerMessage.carries rfl rfl).1, counted, List.length_map,
      List.length_map] at length
    have split := ordered.arrived
    rw [pushedRequests, List.flatMap_append] at split
    obtain ⟨same, later⟩ := List.append_inj split length
    refine ⟨?_, ?_, ?_, ordered.pending⟩
    · rw [pushedRequests, same]
      exact ordered.store
    · rw [← later, List.flatMap_cons, eq_exit_of_plain (here.trans exit)]
      rfl
    · rw [pushedRequests, same]
      exact ordered.handled

/-! ## A gain that is set and queried -/

/-- A block with one parameter. -/
def gain : BlockInterface Nat Nat where
  onParameterQuery := fun value _ => (value, value)
  onParameterChange := fun _ action => (action, action)

/-- What is asked of block 7: to set its gain to five, to tell it to callback 3, and to set
it to six. -/
def gainRequests : List (Request Nat Nat Nat) :=
  [.change ⟨7, 5, none⟩, .query ⟨7, 0, some 3⟩, .change ⟨7, 6, none⟩]

/-- The gain of block 7 is set to five and queried before EXIT, and set to six after it. -/
theorem exists_gain_run : ∃ taken, ∃ σ : ControlPlane Nat Nat Nat,
    Transition.Run (Step gain [4, 7] {}) (initial 0 fun _ => 1) taken σ ∧
      pushedRequests taken = gainRequests ∧
      σ.crashed = false ∧ (∀ t ∈ taken, t.label ≠ .requestStop) ∧ σ.thread.pc = .exited ∧
      σ.store.replies = [(3, 5)] ∧ σ.store.blocks 1 = 5 ∧ σ.requests.length = 1 := by
  have follows : Transition.follow (next gain [4, 7] {})
      (initial 0 fun _ => 1 : ControlPlane Nat Nat Nat)
      ([.openGate, .push (.request (.change ⟨7, 5, none⟩)),
        .push (.request (.query ⟨7, 0, some 3⟩)), .push (.action .exit),
        .push (.request (.change ⟨7, 6, none⟩))] ++
        List.replicate 14 (.step .ready)) = some _ := rfl
  obtain ⟨taken, run, labels⟩ := Transition.Run.of_follow follows
  refine ⟨taken, _, run, ?_, rfl, fun t member stops => ?_, rfl, rfl, rfl, rfl⟩
  · rw [pushedRequests, ← List.flatMap_map Transition.Taken.label, labels]
    rfl
  · have listed := List.mem_map_of_mem (f := Transition.Taken.label) member
    rw [labels, stops] at listed
    simp [List.replicate] at listed

/-- A change and a query are served in their order; a later change stays queued behind the EXIT
message. -/
theorem gain_requests_in_order :
    ∃ taken, ∃ (past : List (Request Nat Nat Nat)) (σ : ControlPlane Nat Nat Nat),
      Transition.Run (Step gain [4, 7] {}) (initial 0 fun _ => 1) taken σ ∧
      pushedRequests taken = gainRequests ∧ gainRequests = past ++ σ.requests ∧
      σ.requests.length = 1 ∧
      carryOutAll gain [4, 7] { blocks := fun _ => 1 } past = some σ.store ∧
      σ.store.replies = [(3, 5)] := by
  obtain ⟨taken, σ, run, pushed, _, _, _, replies, _, length⟩ := exists_gain_run
  obtain ⟨past, split, done, _⟩ := requests_in_order gain [4, 7] {} 0 (fun _ => 1) taken σ run
  exact ⟨taken, past, σ, run, pushed, pushed.symm.trans split, length, done, replies⟩

/-- The change after the EXIT message is not carried out. -/
theorem gain_requests_before_exit :
    ∃ (front back : List (Transition.Taken (ControlPlane Nat Nat Nat) (Act Nat Nat Nat)))
      (t : Transition.Taken (ControlPlane Nat Nat Nat) (Act Nat Nat Nat))
      (σ : ControlPlane Nat Nat Nat),
      Transition.Run (Step gain [4, 7] {}) (initial 0 fun _ => 1) (front ++ t :: back) σ ∧
      pushedRequests (front ++ t :: back) = gainRequests ∧ t.label = .push (.action .exit) ∧
      carryOutAll gain [4, 7] { blocks := fun _ => 1 } (pushedRequests front) = some σ.store ∧
      σ.store.blocks 1 = 5 ∧ (pushedRequests back).length = 1 := by
  obtain ⟨taken, σ, run, pushed, runs, unasked, exited, _, five, length⟩ := exists_gain_run
  obtain ⟨front, t, back, rfl, exit, _, done, later, _⟩ :=
    requests_before_exit gain [4, 7] {} 0 (fun _ => 1) taken σ run runs unasked exited
  exact ⟨front, back, t, σ, run, pushed, exit, done, five, later ▸ length⟩

end ControlPlane

end TorchDsp
