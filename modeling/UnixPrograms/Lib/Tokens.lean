import UnixPrograms.Lib.Sums
import Mathlib.Algebra.Order.BigOperators.Group.Finset
import Mathlib.Tactic.Linarith

/-!
# Units of semaphores

A unit of a semaphore is in its value or with a thread, and `Balanced sem held total` says that none
gets lost.  A thread that has posted more than it has waited for holds a negative number of units.
-/

namespace UnixPrograms

open Function Finset

variable {ι κ : Type} [Fintype ι]

/-- The units in the semaphores and with the threads add up. -/
def Balanced (sem : κ → ℕ) (held : ι → κ → ℤ) (total : κ → ℤ) : Prop :=
  ∀ k, (sem k : ℤ) + ∑ i, held i k = total k

variable {sem sem' : κ → ℕ} {held : ι → κ → ℤ} {total total' : κ → ℤ} {k : κ} {i : ι}

lemma Balanced.update [DecidableEq ι] (h : Balanced sem held total) {x : κ → ℤ}
    (hx : ∀ k, (sem' k : ℤ) + x k + total k = sem k + held i k + total' k) :
    Balanced sem' (update held i x) total' := by
  intro k
  have hsum := sum_update_add (fun y : κ → ℤ => y k) held i x
  have hk := h k
  have hxk := hx k
  linarith

lemma sem_wait_add [DecidableEq κ] (hsem : sem k ≠ 0) {x y : κ → ℤ}
    (hx : ∀ j, x j = y j + if j = k then 1 else 0) (j : κ) :
    ((update sem k (sem k - 1) j : ℕ) : ℤ) + x j = sem j + y j := by
  rw [hx j]
  by_cases hj : j = k
  · subst hj
    rw [Function.update_self, if_pos rfl]
    omega
  · rw [Function.update_of_ne hj, if_neg hj, add_zero]

lemma sem_post_add [DecidableEq κ] {x y : κ → ℤ}
    (hy : ∀ j, y j = x j + if j = k then 1 else 0) (j : κ) :
    ((update sem k (sem k + 1) j : ℕ) : ℤ) + x j = sem j + y j := by
  rw [hy j]
  by_cases hj : j = k
  · subst hj
    rw [Function.update_self, if_pos rfl]
    omega
  · rw [Function.update_of_ne hj, if_neg hj, add_zero]

section

variable (h : Balanced sem held total)
include h

lemma Balanced.exists_holder (hsem : sem k = 0) (htotal : 0 < total k) : ∃ i, 0 < held i k := by
  by_contra hnone
  have hle : ∀ i ∈ univ, held i k ≤ 0 := by
    intro i _
    by_contra hi
    exact hnone ⟨i, not_le.mp hi⟩
  have hsum := sum_nonpos hle
  have hk := h k
  rw [hsem] at hk
  push_cast at hk
  linarith

lemma Balanced.held_le (hpos : ∀ i, 0 ≤ held i k) (i : ι) : held i k ≤ total k := by
  have hsingle := single_le_sum (fun j _ => hpos j) (mem_univ i)
  have hk := h k
  linarith [Int.natCast_nonneg (sem k)]

lemma Balanced.add_held_le [DecidableEq ι] (hpos : ∀ i, 0 ≤ held i k) {j : ι} (hij : i ≠ j) :
    held i k + held j k ≤ total k := by
  have hpair := add_le_sum (fun l _ => hpos l) (mem_univ i) (mem_univ j) hij
  have hk := h k
  linarith [Int.natCast_nonneg (sem k)]

lemma Balanced.le_sem (hneg : ∀ i, held i k ≤ 0) (i : ι) : total k - held i k ≤ sem k := by
  have hrest : ∀ j ∈ univ, 0 ≤ -held j k := fun j _ => neg_nonneg.mpr (hneg j)
  have hsingle := single_le_sum hrest (mem_univ i)
  have hk := h k
  rw [sum_neg_distrib] at hsingle
  linarith

lemma Balanced.sem_eq (hzero : ∀ i, held i k = 0) : (sem k : ℤ) = total k := by
  have hk := h k
  rwa [sum_eq_zero fun i _ => hzero i, add_zero] at hk

end

end UnixPrograms
