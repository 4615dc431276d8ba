import Mathlib.Data.List.Basic

/-! # Ledgers of published and released items

A ledger counts, for every channel, the items published into it and, for every
reader, the items it has released. A reader is attached to one channel. Items a
reader has not released are unread; a reader is within its channel when it has
released no more than was published. Posting a batch of counts advances all
totals at once.
-/

/-- The totals of a family of readers `ρ` over a family of channels `β`. -/
@[ext] structure Ledger (ρ β : Type*) where
  released : ρ → Nat
  published : β → Nat

namespace Ledger

variable {ρ β : Type*} (source : ρ → β) (ledger : Ledger ρ β)

/-- Advance every reader by `consumed` and every channel by `produced`. -/
def post (consumed : ρ → Nat) (produced : β → Nat) : Ledger ρ β where
  released := fun reader => ledger.released reader + consumed reader
  published := fun channel => ledger.published channel + produced channel

/-- The published items a reader has not released. -/
def unread (reader : ρ) : Nat :=
  ledger.published (source reader) - ledger.released reader

/-- A reader has released no more than its channel holds. -/
def Within (reader : ρ) : Prop :=
  ledger.released reader ≤ ledger.published (source reader)

instance (reader : ρ) : Decidable (ledger.Within source reader) :=
  inferInstanceAs (Decidable (_ ≤ _))

/-- A reader has released everything that was published into its channel. -/
def Drained (reader : ρ) : Prop :=
  ledger.released reader = ledger.published (source reader)

variable {source ledger} {consumed : ρ → Nat} {produced : β → Nat} {reader : ρ}

/-- A posting adds what was consumed. -/
@[simp] theorem released_post (reader : ρ) :
    (ledger.post consumed produced).released reader = ledger.released reader + consumed reader :=
  rfl

/-- A posting adds what was produced. -/
@[simp] theorem published_post (channel : β) :
    (ledger.post consumed produced).published channel =
      ledger.published channel + produced channel :=
  rfl

/-- Posting moves nothing exactly when every count is zero. -/
theorem post_eq_self_iff :
    ledger.post consumed produced = ledger ↔
      (∀ reader, consumed reader = 0) ∧ ∀ channel, produced channel = 0 := by
  constructor
  · intro same
    refine ⟨fun reader => ?_, fun channel => ?_⟩
    · have total := congrFun (congrArg released same) reader
      rw [released_post] at total
      omega
    · have total := congrFun (congrArg published same) channel
      rw [published_post] at total
      omega
  · rintro ⟨reads, writes⟩
    apply Ledger.ext
    · funext reader
      rw [released_post, reads, Nat.add_zero]
    · funext channel
      rw [published_post, writes, Nat.add_zero]

/-- A reader that releases only unread items passes no item that is not
published yet. -/
theorem Within.released_post_le (within : ledger.Within source reader)
    (bounded : consumed reader ≤ ledger.unread source reader) :
    (ledger.post consumed produced).released reader ≤ ledger.published (source reader) := by
  unfold Within unread at *
  rw [released_post]
  omega

/-- A reader that releases no more than is published into its channel in the
same posting stays within it. -/
theorem Within.post_of_le_produced (within : ledger.Within source reader)
    (bounded : consumed reader ≤ produced (source reader)) :
    (ledger.post consumed produced).Within source reader := by
  unfold Within at *
  rw [released_post, published_post]
  omega

/-- A reader whose channel only grows stays within it. -/
theorem Within.mono {later : Ledger ρ β} (within : ledger.Within source reader)
    (kept : later.released reader = ledger.released reader)
    (grown : ledger.published (source reader) ≤ later.published (source reader)) :
    later.Within source reader := by
  unfold Within at *
  omega

/-- A reader that releases what is published into its channel stays drained. -/
theorem Drained.post_of_eq_produced (drained : ledger.Drained source reader)
    (same : consumed reader = produced (source reader)) :
    (ledger.post consumed produced).Drained source reader := by
  unfold Drained at *
  rw [released_post, published_post, drained, same]

end Ledger
