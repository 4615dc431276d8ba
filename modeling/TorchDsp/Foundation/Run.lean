import Mathlib.Data.List.Basic

/-! # Finite runs of a transition system

A transition system is a relation `step source label target` over arbitrary
types of states and labels. A run records every transition it takes, so that a
condition on a run is a condition on its transitions. An invariant of the steps
that satisfy such a condition holds along every run whose transitions all
satisfy it (`Transition.Run.invariant`).
-/

namespace Transition

variable {σ α : Type*}

/-- A transition as a run records it. -/
structure Taken (σ α : Type*) where
  source : σ
  label : α
  target : σ

/-- A finite run, with its transitions in the order they are taken. -/
inductive Run (step : σ → α → σ → Prop) : σ → List (Taken σ α) → σ → Prop
  | nil (state : σ) : Run step state [] state
  | cons {source middle final : σ} {label : α} {rest : List (Taken σ α)} :
      step source label middle → Run step middle rest final →
        Run step source (⟨source, label, middle⟩ :: rest) final

variable {step : σ → α → σ → Prop} {source middle final : σ} {taken later : List (Taken σ α)}

/-- Two runs that meet are one run. -/
theorem Run.append (front : Run step source taken middle) (back : Run step middle later final) :
    Run step source (taken ++ later) final := by
  induction front with
  | nil state => exact back
  | cons moved _ ih => exact .cons moved (ih back)

/-- A step is a run. -/
theorem Run.single {label : α} (moved : step source label final) :
    Run step source [⟨source, label, final⟩] final :=
  .cons moved (.nil final)

/-- A run may go on by a step. -/
theorem Run.snoc {label : α} (front : Run step source taken middle)
    (moved : step middle label final) :
    Run step source (taken ++ [⟨middle, label, final⟩]) final :=
  front.append (.single moved)

/-- A run over two lists of transitions passes through a state between them. -/
theorem Run.split {front : List (Taken σ α)} (run : Run step source (front ++ later) final) :
    ∃ middle, Run step source front middle ∧ Run step middle later final := by
  induction front generalizing source with
  | nil => exact ⟨source, .nil source, run⟩
  | cons first rest ih =>
      cases run with
      | cons moved onward =>
          obtain ⟨middle, front, back⟩ := ih onward
          exact ⟨middle, .cons moved front, back⟩

/-- What comes before, at and after a transition of a run. -/
theorem Run.split_at {front : List (Taken σ α)} {transition : Taken σ α}
    (run : Run step source (front ++ transition :: later) final) :
    Run step source front transition.source ∧
      step transition.source transition.label transition.target ∧
      Run step transition.target later final := by
  obtain ⟨middle, front, back⟩ := run.split
  cases back with
  | cons moved onward => exact ⟨front, moved, onward⟩

/-- Follow a list of labels through a step function. -/
def follow (next : σ → α → Option σ) : σ → List α → Option σ
  | state, [] => some state
  | state, label :: rest => (next state label).bind fun middle => follow next middle rest

/-- What a step function follows is a run. -/
theorem Run.of_follow {next : σ → α → Option σ} {labels : List α}
    (follows : follow next source labels = some final) :
    ∃ taken, Run (fun state label target => next state label = some target) source taken final ∧
      taken.map Taken.label = labels := by
  induction labels generalizing source with
  | nil => cases follows; exact ⟨[], .nil _, rfl⟩
  | cons label rest ih =>
      obtain ⟨middle, moves, onward⟩ := Option.bind_eq_some_iff.mp follows
      obtain ⟨taken, run, same⟩ := ih onward
      exact ⟨⟨source, label, middle⟩ :: taken, .cons moves run, by rw [List.map_cons, same]⟩

/-- Every recorded transition is a step. -/
theorem Run.step_of_mem (run : Run step source taken final) :
    ∀ transition ∈ taken, step transition.source transition.label transition.target := by
  induction run with
  | nil state => intro transition member; exact (List.not_mem_nil member).elim
  | cons moved _ ih =>
      intro transition member
      rcases List.mem_cons.mp member with rfl | inside
      · exact moved
      · exact ih transition inside

/-- A predicate preserved by every transition of a run holds in its last state
and at both ends of every transition. -/
theorem Run.invariant (run : Run step source taken final) (holds : σ → Prop) (start : holds source)
    (preserved : ∀ transition ∈ taken,
      step transition.source transition.label transition.target →
        holds transition.source → holds transition.target) :
    holds final ∧ ∀ transition ∈ taken, holds transition.source ∧ holds transition.target := by
  induction run with
  | nil state => exact ⟨start, fun transition absurd => (List.not_mem_nil absurd).elim⟩
  | @cons origin next last label rest moved _ ih =>
      have reached : holds next := preserved _ List.mem_cons_self moved start
      obtain ⟨atEnd, along⟩ := ih reached fun transition member =>
        preserved transition (List.mem_cons_of_mem _ member)
      refine ⟨atEnd, fun transition member => ?_⟩
      rcases List.mem_cons.mp member with rfl | inside
      · exact ⟨start, reached⟩
      · exact along transition inside

/-- An invariant of all steps holds in every state reached. -/
theorem Run.invariant_of_step (run : Run step source taken final) (holds : σ → Prop)
    (start : holds source)
    (preserved : ∀ before label after, step before label after → holds before → holds after) :
    holds final :=
  (run.invariant holds start fun _ _ moved => preserved _ _ _ moved).1

/-- A run whose transitions are all matched by runs of another system is matched by one. -/
theorem Run.matched {τ β : Type*} {step' : τ → β → τ → Prop}
    (run : Run step source taken final) (related : σ → τ → Prop) (allowed : Taken τ β → Prop)
    {other : τ} (start : related source other)
    (matched : ∀ transition ∈ taken,
      step transition.source transition.label transition.target →
        ∀ other, related transition.source other → ∃ taken' other', Run step' other taken' other' ∧
          (∀ t ∈ taken', allowed t) ∧ related transition.target other') :
    ∃ taken' other', Run step' other taken' other' ∧ (∀ t ∈ taken', allowed t) ∧
      related final other' := by
  induction run generalizing other with
  | nil state =>
      exact ⟨[], other, .nil other, fun _ absent => (List.not_mem_nil absent).elim, start⟩
  | cons moved _ ih =>
      obtain ⟨first, middle, front, here, along⟩ := matched _ List.mem_cons_self moved other start
      obtain ⟨later, other', back, there, atEnd⟩ := ih along fun transition member =>
        matched transition (List.mem_cons_of_mem _ member)
      exact ⟨first ++ later, other', front.append back,
        List.forall_mem_append.mpr ⟨here, there⟩, atEnd⟩

/-- A goal is reached from a state at some distance if from every distance some step
leads nearer to it. -/
theorem Run.exists_of_nearer (near : Nat → σ → Prop) (goal : σ → Prop)
    (allowed : Taken σ α → Prop)
    (nearer : ∀ distance state, near distance state → ∃ label next, step state label next ∧
      allowed ⟨state, label, next⟩ ∧ (goal next ∨ ∃ less < distance, near less next))
    {distance : Nat} (start : near distance source) :
    ∃ taken final, Run step source taken final ∧ (∀ t ∈ taken, allowed t) ∧ goal final := by
  induction distance using Nat.strongRecOn generalizing source with
  | ind distance ih =>
      obtain ⟨label, next, moved, here, onward⟩ := nearer distance source start
      rcases onward with reached | ⟨less, below, there⟩
      · exact ⟨_, next, .single moved, List.forall_mem_singleton.mpr here, reached⟩
      · obtain ⟨taken, final, run, along, reached⟩ := ih less below there
        exact ⟨_, final, .cons moved run, List.forall_mem_cons.mpr ⟨here, along⟩, reached⟩

/-- Goals that can be reached one by one, none at the expense of another, can be
reached together. -/
theorem Run.exists_of_goals {ι : Type*} (holds : σ → Prop) (met : ι → σ → Prop) (goals : List ι)
    (reach : ∀ goal ∈ goals, ∀ state, holds state →
      ∃ taken final, Run step state taken final ∧ holds final ∧ met goal final ∧
        ∀ other ∈ goals, met other state → met other final)
    (start : holds source) :
    ∃ taken final, Run step source taken final ∧ holds final ∧ ∀ goal ∈ goals, met goal final := by
  have some (chosen : List ι) (among : chosen ⊆ goals) : ∃ taken final,
      Run step source taken final ∧ holds final ∧ ∀ goal ∈ chosen, met goal final := by
    induction chosen with
    | nil => exact ⟨[], source, .nil source, start, by simp⟩
    | cons goal rest ih =>
        obtain ⟨inside, others⟩ := List.cons_subset.mp among
        obtain ⟨taken, middle, front, between, met⟩ := ih others
        obtain ⟨later, final, back, atEnd, here, kept⟩ := reach goal inside middle between
        refine ⟨taken ++ later, final, front.append back, atEnd, fun other member => ?_⟩
        rcases List.mem_cons.mp member with rfl | before
        · exact here
        · exact kept other (others before) (met other before)
  exact some goals (List.Subset.refl goals)

/-- A condition that every transition keeps unless it is of some kind, and that does
not last, leads to a transition of that kind. -/
theorem Run.exists_of_lost (run : Run step source taken final) (holds : σ → Prop)
    (kind : Taken σ α → Prop) (start : holds source)
    (kept : ∀ transition ∈ taken, step transition.source transition.label transition.target →
      holds transition.source → kind transition ∨ holds transition.target)
    (lost : ¬ holds final) : ∃ transition ∈ taken, kind transition := by
  induction run with
  | nil state => exact (lost start).elim
  | cons moved _ ih =>
      rcases kept _ List.mem_cons_self moved start with found | onward
      · exact ⟨_, List.mem_cons_self, found⟩
      · obtain ⟨transition, member, found⟩ := ih onward
          (fun transition member => kept transition (List.mem_cons_of_mem _ member)) lost
        exact ⟨transition, List.mem_cons_of_mem _ member, found⟩

/-- A property of the past that every transition hands on holds before each transition
of a run. -/
theorem Run.history (run : Run step source taken final) (holds : List (Taken σ α) → σ → Prop)
    {past : List (Taken σ α)} (start : holds past source)
    (handed : ∀ past transition, step transition.source transition.label transition.target →
      holds past transition.source → holds (past ++ [transition]) transition.target) :
    ∀ front transition later, taken = front ++ transition :: later →
      holds (past ++ front) transition.source := by
  induction run generalizing past with
  | nil state =>
      intro front transition later split
      exact (List.append_ne_nil_of_right_ne_nil _ (List.cons_ne_nil _ _) split.symm).elim
  | @cons origin next last label rest moved _ ih =>
      intro front transition later split
      cases front with
      | nil =>
          obtain ⟨rfl, _⟩ := List.cons.inj split
          rw [List.append_nil]
          exact start
      | cons first front =>
          obtain ⟨rfl, onward⟩ := List.cons.inj split
          have reached := handed past ⟨origin, label, next⟩ moved start
          have before := ih reached front transition later onward
          rwa [List.append_assoc] at before

/-- A potential that no transition raises, and that pays for each transition of a
kind, bounds how many of them a run takes. -/
theorem Run.countP_le (run : Run step source taken final) (kind : Taken σ α → Bool)
    (potential : σ → Nat)
    (paid : ∀ transition ∈ taken, step transition.source transition.label transition.target →
      potential transition.target + (if kind transition then 1 else 0) ≤
        potential transition.source) :
    potential final + taken.countP kind ≤ potential source := by
  induction run with
  | nil state => exact Nat.le_refl _
  | cons moved _ ih =>
      have first := paid _ List.mem_cons_self moved
      have later := ih fun transition member => paid transition (List.mem_cons_of_mem _ member)
      rw [List.countP_cons]
      simp only at first
      omega

end Transition
