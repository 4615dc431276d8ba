import Mathlib.Data.List.Basic
import Mathlib.Logic.Function.Basic

/-! # Tables whose entries have owners

A table maps keys to values and an owner holds at most one entry of it. The table
is exact when its entries are those that the owners hold: nothing is leaked, and
nothing that an owner holds is missing.
-/

namespace Ownership

variable {κ ν β : Type*}

/-- The entries of a table are exactly those that the owners hold. -/
def Exact (table : κ → Option ν) (held : β → Option (κ × ν)) (owners : List β) : Prop :=
  ∀ key value, table key = some value ↔ ∃ owner ∈ owners, held owner = some (key, value)

/-- An empty table is exact for nobody. -/
theorem exact_empty (held : β → Option (κ × ν)) : Exact (fun _ => none) held [] := by
  intro key value
  simp only [reduceCtorEq, List.not_mem_nil, false_and, exists_false]

variable {table : κ → Option ν} {held : β → Option (κ × ν)} {owners front back : List β}
  {owner : β} {key : κ} {value : ν}

/-- What an owner holds is in the table. -/
theorem Exact.of_mem (exact : Exact table held owners) (member : owner ∈ owners)
    (holds : held owner = some (key, value)) : table key = some value :=
  (exact key value).mpr ⟨owner, member, holds⟩

/-- An entry that no owner holds is leaked. -/
theorem Exact.not_of_leak (leaked : table key = some value)
    (nobody : ∀ owner ∈ owners, ∀ other, held owner ≠ some (key, other)) :
    ¬ Exact table held owners := by
  intro exact
  obtain ⟨owner, member, holds⟩ := (exact key value).mp leaked
  exact nobody owner member value holds

variable [DecidableEq κ]

/-- A new owner brings its entry under a key that is not in use. -/
theorem Exact.insert (exact : Exact table held owners) (fresh : table key = none)
    (holds : held owner = some (key, value)) :
    Exact (Function.update table key (some value)) held (owner :: owners) := by
  intro query found
  simp only [List.exists_mem_cons_iff, holds, Option.some.injEq, Prod.mk.injEq]
  by_cases same : query = key
  · subst same
    rw [Function.update_self, ← exact, fresh]
    simp only [Option.some.injEq, true_and, reduceCtorEq, or_false]
  · rw [Function.update_of_ne same, exact]
    simp only [Ne.symm same, false_and, false_or]

/-- An owner that leaves takes its entry with it. -/
theorem Exact.remove (exact : Exact table held (front ++ owner :: back))
    (holds : held owner = some (key, value))
    (alone : ∀ other ∈ front ++ back, ∀ value', held other ≠ some (key, value')) :
    Exact (Function.update table key none) held (front ++ back) := by
  intro query found
  by_cases same : query = key
  · subst same
    rw [Function.update_self]
    constructor
    · intro absurd
      cases absurd
    · rintro ⟨other, member, holds'⟩
      exact (alone other member found holds').elim
  · rw [Function.update_of_ne same, exact]
    constructor
    · rintro ⟨other, member, holds'⟩
      rcases List.mem_append.mp member with before | after
      · exact ⟨other, List.mem_append_left _ before, holds'⟩
      · rcases List.mem_cons.mp after with rfl | after
        · rw [holds, Option.some.injEq, Prod.mk.injEq] at holds'
          exact (same holds'.1.symm).elim
        · exact ⟨other, List.mem_append_right _ after, holds'⟩
    · rintro ⟨other, member, holds'⟩
      refine ⟨other, ?_, holds'⟩
      rcases List.mem_append.mp member with before | after
      · exact List.mem_append_left _ before
      · exact List.mem_append_right _ (List.mem_cons_of_mem _ after)

end Ownership
