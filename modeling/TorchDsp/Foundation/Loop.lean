import Mathlib.Data.List.Basic
import Mathlib.Data.List.Count
import Mathlib.Data.List.Forall2
import Mathlib.Data.List.Nodup
import Mathlib.Logic.Function.Iterate

/-! # Loops over lists and fallible steps -/

namespace List.Forall₂

variable {α β : Type*} {R : α → β → Prop} {left : List α} {right : List β} {i : Nat} {a : α}

/-- Each entry on the left has one on the right. -/
theorem exists_getElem? (related : Forall₂ R left right) (here : left[i]? = some a) :
    ∃ b, right[i]? = some b := by
  obtain ⟨within, _⟩ := List.getElem?_eq_some_iff.mp here
  exact ⟨_, List.getElem?_eq_getElem (related.length_eq ▸ within)⟩

/-- Entries at one position are related. -/
theorem getElem? {b : β} (related : Forall₂ R left right) (here : left[i]? = some a)
    (there : right[i]? = some b) : R a b := by
  induction related generalizing i with
  | nil => cases here
  | cons first _ ih =>
      cases i with
      | zero => cases here; cases there; exact first
      | succ i => exact ih here there

/-- What related entries share holds of all on the right when it does on the left. -/
theorem forall_mem_congr {P : α → Prop} {Q : β → Prop} (related : Forall₂ R left right)
    (same : ∀ a b, R a b → (Q b ↔ P a)) : (∀ b ∈ right, Q b) ↔ ∀ a ∈ left, P a := by
  induction related with
  | nil =>
      exact iff_of_true (fun _ absurd => (List.not_mem_nil absurd).elim)
        fun _ absurd => (List.not_mem_nil absurd).elim
  | cons first _ ih =>
      rw [List.forall_mem_cons, List.forall_mem_cons, same _ _ first, ih]

/-- Lists that are related through a third one. -/
theorem comp {γ : Type*} {S : β → γ → Prop} {T : α → γ → Prop} {third : List γ}
    (related : Forall₂ R left right) (next : Forall₂ S right third)
    (through : ∀ a b c, R a b → S b c → T a c) : Forall₂ T left third := by
  induction related generalizing third with
  | nil => cases next; exact .nil
  | cons first _ ih =>
      cases next with
      | cons second later => exact .cons (through _ _ _ first second) (ih later)

end List.Forall₂

/-- What holds of all elements of a list with their positions. -/
theorem List.forall_getElem?_cons {α : Type*} {P : Nat → α → Prop} {n : Nat} {first : α}
    {rest : List α} : (∀ i a, (first :: rest)[i]? = some a → P (n + i) a) ↔
      P n first ∧ ∀ i a, rest[i]? = some a → P (n + 1 + i) a := by
  have shift (i : Nat) : n + 1 + i = n + (i + 1) := by omega
  constructor
  · intro all
    refine ⟨all 0 first rfl, fun i a listed => ?_⟩
    rw [shift]
    exact all (i + 1) a listed
  · rintro ⟨here, later⟩ i a listed
    cases i with
    | zero => cases listed; exact here
    | succ i =>
        rw [← shift]
        exact later i a listed

universe u in
/-- A fallible computation succeeds when both of its parts do. -/
theorem Except.bind_eq_ok {ε : Type*} {α β : Type u} {first : Except ε α} {next : α → Except ε β}
    {result : β} (succeeds : first >>= next = .ok result) :
    ∃ value, first = .ok value ∧ next value = .ok result := by
  cases first with
  | error cause => cases succeeds
  | ok value => exact ⟨value, rfl, succeeds⟩

/-- Translating the error of a computation keeps its success. -/
theorem Except.mapError_eq_ok {ε δ α : Type*} {first : Except ε α} {translate : ε → δ}
    {value : α} (succeeds : first.mapError translate = .ok value) : first = .ok value := by
  cases first with
  | error cause => cases succeeds
  | ok other => cases succeeds; rfl

/-- A result that was changed comes from one that was there. -/
theorem Except.map_eq_ok {ε α β : Type*} {first : Except ε α} {change : α → β} {result : β}
    (succeeds : first.map change = .ok result) :
    ∃ value, first = .ok value ∧ change value = result := by
  cases first with
  | error cause => cases succeeds
  | ok value => cases succeeds; exact ⟨value, rfl, rfl⟩

/-- A fallible computation fails in one of its parts. -/
theorem Except.bind_eq_error {ε : Type*} {α β : Type u} {first : Except ε α}
    {next : α → Except ε β} {cause : ε} (fails : first >>= next = .error cause) :
    first = .error cause ∨ ∃ value, first = .ok value ∧ next value = .error cause := by
  cases first with
  | error other => cases fails; exact Or.inl rfl
  | ok value => exact Or.inr ⟨value, rfl, fails⟩

/-- An error that was translated comes from one that was there. -/
theorem Except.mapError_eq_error {ε δ α : Type*} {first : Except ε α} {translate : ε → δ}
    {cause : δ} (fails : first.mapError translate = .error cause) :
    ∃ other, first = .error other ∧ translate other = cause := by
  cases first with
  | error other => cases fails; exact ⟨other, rfl, rfl⟩
  | ok value => cases fails

/-- Changing a result leaves an error alone. -/
theorem Except.map_eq_error {ε α β : Type*} {first : Except ε α} {change : α → β} {cause : ε}
    (fails : first.map change = .error cause) : first = .error cause := by
  cases first with
  | error other => cases fails; rfl
  | ok value => cases fails

/-- Applying a change once for every occurrence of a key applies it as often
as the key occurs. -/
theorem List.foldl_update_apply {κ ν : Type*} [DecidableEq κ] (change : ν → ν) (keys : List κ)
    (values : κ → ν) (key : κ) :
    keys.foldl (fun current k => Function.update current k (change (current k))) values key =
      change^[keys.count key] (values key) := by
  induction keys generalizing values with
  | nil => simp only [List.foldl_nil, List.count_nil, Function.iterate_zero, id_eq]
  | cons head rest ih =>
      rw [List.foldl_cons, ih]
      by_cases same : head = key
      · subst same
        rw [Function.update_self, List.count_cons_self, Function.iterate_succ_apply]
      · rw [Function.update_of_ne (Ne.symm same), List.count_cons_of_ne same]

/-! ## Tables -/

namespace List

variable {α β γ : Type*}

/-- The cells of a table, each with its row, its column and a mark. -/
def cells (columns : α → List β) (mark : β → γ) (rows : List α) : List (Nat × Nat × γ) :=
  (rows.mapIdx fun p row => (columns row).mapIdx fun i cell => (p, i, mark cell)).flatten

variable {columns : α → List β} {mark : β → γ} {rows : List α} {p i : Nat} {x : γ}

/-- A cell of the table is where its row and its column say. -/
theorem mem_cells : (p, i, x) ∈ cells columns mark rows ↔
    ∃ row cell, rows[p]? = some row ∧ (columns row)[i]? = some cell ∧ mark cell = x := by
  unfold cells
  rw [mem_flatten]
  constructor
  · rintro ⟨listed, member, inside⟩
    obtain ⟨q, bound, rfl⟩ := mem_mapIdx.mp member
    obtain ⟨j, within, same⟩ := mem_mapIdx.mp inside
    cases same
    exact ⟨rows[p], (columns rows[p])[i], getElem?_eq_getElem bound,
      getElem?_eq_getElem within, rfl⟩
  · rintro ⟨row, cell, here, there, rfl⟩
    refine ⟨_, mem_mapIdx.mpr ⟨p, (getElem?_eq_some_iff.mp here).1, rfl⟩, mem_mapIdx.mpr ⟨i, ?_⟩⟩
    obtain ⟨bound, rfl⟩ := getElem?_eq_some_iff.mp here
    obtain ⟨within, rfl⟩ := getElem?_eq_some_iff.mp there
    exact ⟨within, rfl⟩

/-- Every place occurs once. -/
theorem nodup_places : ((cells columns mark rows).map fun cell => (cell.1, cell.2.1)).Nodup := by
  unfold cells
  rw [map_flatten, nodup_flatten]
  constructor
  · intro listed member
    obtain ⟨row, inside, rfl⟩ := mem_map.mp member
    obtain ⟨p, _, rfl⟩ := mem_mapIdx.mp inside
    apply pairwise_iff_getElem.mpr
    intro i j _ _ before same
    rw [getElem_map, getElem_map, getElem_mapIdx, getElem_mapIdx] at same
    cases same
    exact Nat.lt_irrefl i before
  · apply pairwise_iff_getElem.mpr
    intro p q _ _ before cell first second
    rw [getElem_map, getElem_mapIdx, mem_map] at first second
    obtain ⟨⟨_, _, _⟩, first, rfl⟩ := first
    obtain ⟨⟨_, _, _⟩, second, same⟩ := second
    obtain ⟨_, _, first⟩ := mem_mapIdx.mp first
    obtain ⟨_, _, second⟩ := mem_mapIdx.mp second
    cases first
    cases second
    cases same
    exact Nat.lt_irrefl p before

/-- No place of the table has two cells. -/
theorem count_places (member : (p, i, x) ∈ cells columns mark rows) :
    (cells columns mark rows).countP (fun cell => cell.1 == p && cell.2.1 == i) = 1 := by
  have once := count_eq_one_of_mem nodup_places (mem_map_of_mem member (f := fun cell =>
    (cell.1, cell.2.1)))
  rw [count_eq_countP, countP_map] at once
  exact once

end List
