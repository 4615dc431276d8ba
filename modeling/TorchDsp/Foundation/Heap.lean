import Mathlib.Data.List.Forall2
import Mathlib.Data.List.Nodup

/-! # Objects behind pointers

A heap is a list of objects, and a pointer is a position in it. Objects are rewritten
in place through a list of pointers, one after the other. Through distinct pointers
this rewrites each object once, as if the objects had been stored in the list
themselves (`Heap.rewriteAll_read`).
-/

namespace Heap

variable {τ β : Type*}

/-- The pointers point to the objects of a list, in its order. -/
def Points (heap : List τ) : List Nat → List τ → Prop :=
  List.Forall₂ fun ptr object => heap[ptr]? = some object

/-- The objects behind pointers. -/
def read (heap : List τ) : List Nat → Option (List τ)
  | [] => some []
  | ptr :: ptrs => do
      let object ← heap[ptr]?
      let objects ← read heap ptrs
      return object :: objects

/-- Rewrite the objects behind pointers, each with an argument of its own. -/
def rewriteAll (rewrite : β → τ → Option τ) :
    List τ → List Nat → List β → Option (List τ)
  | heap, [], _ => some heap
  | _, _ :: _, [] => none
  | heap, ptr :: ptrs, argument :: arguments => do
      let object ← heap[ptr]?
      let written ← rewrite argument object
      rewriteAll rewrite (heap.set ptr written) ptrs arguments

/-- Rewrite the objects of a list. -/
def rewriteList (rewrite : β → τ → Option τ) : List τ → List β → Option (List τ)
  | [], _ => some []
  | _ :: _, [] => none
  | object :: objects, argument :: arguments => do
      let written ← rewrite argument object
      let rest ← rewriteList rewrite objects arguments
      return written :: rest

/-- Reading succeeds with the objects that the pointers point to. -/
theorem read_eq_some_iff {heap : List τ} {ptrs : List Nat} {objects : List τ} :
    read heap ptrs = some objects ↔ Points heap ptrs objects := by
  induction ptrs generalizing objects with
  | nil =>
      rw [read, Points, List.forall₂_nil_left_iff, Option.some.injEq, eq_comm]
  | cons ptr ptrs ih =>
      rw [Points, List.forall₂_cons_left_iff]
      constructor
      · intro reads
        obtain ⟨object, found, reads⟩ := Option.bind_eq_some_iff.mp reads
        obtain ⟨rest, reads, same⟩ := Option.bind_eq_some_iff.mp reads
        exact ⟨object, rest, found, ih.mp reads, (Option.some.inj same).symm⟩
      · rintro ⟨object, rest, found, points, rfl⟩
        rw [read, found, ih.mpr points]
        rfl

/-- New objects behind the old ones. -/
theorem Points.append {heap objects : List τ} {ptrs : List Nat} (points : Points heap ptrs objects)
    (more : List τ) : Points (heap ++ more) ptrs objects := by
  refine points.imp fun ptr object found => ?_
  rw [List.getElem?_append_left (List.getElem?_eq_some_iff.mp found).1]
  exact found

/-- New objects are found behind the old ones, in their order. -/
theorem points_range' (heap objects : List τ) :
    Points (heap ++ objects) (List.range' heap.length objects.length) objects := by
  induction objects generalizing heap with
  | nil => exact .nil
  | cons object objects ih =>
      have first : (heap ++ object :: objects)[heap.length]? = some object := by
        rw [List.getElem?_append_right (Nat.le_refl _), Nat.sub_self]
        rfl
      refine .cons first ?_
      have later := ih (heap ++ [object])
      rwa [List.append_assoc, List.length_append, List.length_singleton] at later

/-- A rewrite leaves the objects behind other pointers alone. -/
theorem rewriteAll_frame {rewrite : β → τ → Option τ} {heap after : List τ} {ptrs : List Nat}
    {arguments : List β} (rewrites : rewriteAll rewrite heap ptrs arguments = some after)
    {ptr : Nat} (other : ptr ∉ ptrs) : after[ptr]? = heap[ptr]? := by
  induction ptrs generalizing heap arguments with
  | nil => cases rewrites; rfl
  | cons first ptrs ih =>
      cases arguments with
      | nil => cases rewrites
      | cons argument arguments =>
          obtain ⟨object, found, rewrites⟩ := Option.bind_eq_some_iff.mp rewrites
          obtain ⟨written, writes, rewrites⟩ := Option.bind_eq_some_iff.mp rewrites
          obtain ⟨apart, others⟩ := not_or.mp (mt List.mem_cons.mpr other)
          rw [ih rewrites others, List.getElem?_set_ne (Ne.symm apart)]

private theorem points_set {heap objects : List τ} {ptrs : List Nat}
    (points : Points heap ptrs objects) {ptr : Nat} (other : ptr ∉ ptrs) (written : τ) :
    Points (heap.set ptr written) ptrs objects := by
  induction points with
  | nil => exact .nil
  | cons found _ ih =>
      obtain ⟨apart, others⟩ := not_or.mp (mt List.mem_cons.mpr other)
      exact .cons ((List.getElem?_set_ne apart).trans found) (ih others)

/-- **Through distinct pointers, objects are rewritten as if they were listed.** -/
theorem rewriteAll_read (rewrite : β → τ → Option τ) {heap objects : List τ} {ptrs : List Nat}
    (points : Points heap ptrs objects) (distinct : ptrs.Nodup) (arguments : List β) :
    ((rewriteAll rewrite heap ptrs arguments).bind fun after => read after ptrs) =
      rewriteList rewrite objects arguments := by
  induction ptrs generalizing heap objects arguments with
  | nil =>
      cases points
      rfl
  | cons ptr ptrs ih =>
      cases points with
      | @cons _ object _ objects found points =>
          cases arguments with
          | nil => rfl
          | cons argument arguments =>
              obtain ⟨other, distinct⟩ := List.nodup_cons.mp distinct
              cases writes : rewrite argument object with
              | none =>
                  simp only [rewriteAll, rewriteList, found, writes, Option.bind_eq_bind,
                    Option.bind_some, Option.bind_none]
              | some written =>
                  -- The pointers that follow do not reach the object that has been written.
                  have onward := ih (points_set points other written) distinct arguments
                  have stored : (heap.set ptr written)[ptr]? = some written :=
                    List.getElem?_set_self (List.getElem?_eq_some_iff.mp found).1
                  simp only [rewriteAll, rewriteList, found, writes, Option.bind_eq_bind,
                    Option.bind_some, ← onward]
                  cases rewrites : rewriteAll rewrite (heap.set ptr written) ptrs arguments with
                  | none => rfl
                  | some after =>
                      have kept := (rewriteAll_frame rewrites other).trans stored
                      simp only [Option.bind_some, read, kept, Option.bind_eq_bind]

end Heap
