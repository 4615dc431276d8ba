import Mathlib.Data.List.Basic

/-! # Functions on streams

A function that works on whole batches does to a stream what it does to its parts,
where they are cut between batches. Stages that hand on what they have made of a part
of their input, as far as they have come, compute their composition: each holds a
prefix of what the composition makes of the whole (`Streams.prefix_composite`).
-/

namespace Streams

variable {α : Type*}

/-- A function that makes of each batch of `m` items as many new ones, whatever comes
before and after the batch. -/
structure Batchwise (m : Nat) (f : List α → List α) : Prop where
  append : ∀ xs ys, m ∣ xs.length → f (xs ++ ys) = f xs ++ f ys
  length : ∀ xs, m ∣ xs.length → (f xs).length = xs.length

/-- A function of single items works in batches of one. -/
theorem batchwise_map (f : α → α) : Batchwise 1 (List.map f) :=
  ⟨fun _ _ _ => List.map_append, fun _ _ => List.length_map f⟩

/-- What comes after whole batches does not change what they become. -/
theorem Batchwise.isPrefix {m : Nat} {f : List α → List α} (whole : Batchwise m f)
    {xs ys : List α} (batches : m ∣ xs.length) (ahead : xs <+: ys) : f xs <+: f ys := by
  obtain ⟨rest, rfl⟩ := ahead
  rw [whole.append _ _ batches]
  exact List.prefix_append _ _

/-- The first functions of a sequence, one after the other. -/
def composite (f : Nat → List α → List α) : Nat → List α → List α
  | 0, xs => xs
  | k + 1, xs => f k (composite f k xs)

/-- **Stages in a row compute their composition.** Each stage has made something of the
first `done` items of its stream, in whole batches, and handed on a part of it. -/
theorem prefix_composite {f : Nat → List α → List α} {batch : Nat → Nat} (done : Nat → Nat)
    {stream : Nat → List α} {n : Nat} (whole : ∀ k < n, Batchwise (batch k) (f k))
    (batches : ∀ k < n, batch k ∣ done k) (within : ∀ k < n, done k ≤ (stream k).length)
    (handed : ∀ k < n, stream (k + 1) <+: f k ((stream k).take (done k))) {input : List α}
    (comes : stream 0 <+: input) : ∀ k ≤ n, stream k <+: composite f k input := by
  intro k
  induction k with
  | zero => exact fun _ => comes
  | succ k ih =>
      intro upTo
      have before := ih (Nat.le_of_lt upTo)
      have cut : ((stream k).take (done k)).length = done k :=
        List.length_take_of_le (within k upTo)
      exact (handed k upTo).trans <| (whole k upTo).isPrefix (cut.symm ▸ batches k upTo)
        ((List.take_prefix _ _).trans before)

end Streams
