import Mathlib.Data.List.Basic
import Mathlib.Data.Nat.ModEq

/-!
# Circular buffers

`RingHolds n slots l lo` says that of the values `l` put in so far those from the position `lo` on
are still in their slots, the value at position `k` in the slot `k % n`.
-/

namespace UnixPrograms

variable {α : Type}

/-- The values from the position `lo` on are in their slots. -/
def RingHolds (n : ℕ) (slots : ℕ → α) (l : List α) (lo : ℕ) : Prop :=
  ∀ k, lo ≤ k → ∀ h : k < l.length, slots (k % n) = l[k]

lemma mod_ne_mod_of_lt {n lo j k : ℕ} (hj : lo ≤ j) (hk : lo ≤ k) (hjn : j < lo + n)
    (hkn : k < lo + n) (hne : j ≠ k) : j % n ≠ k % n := by
  intro heq
  rcases Nat.lt_or_gt_of_ne hne with hlt | hlt
  · have hdvd := (Nat.modEq_iff_dvd' hlt.le).mp heq
    exact absurd (Nat.le_of_dvd (by omega) hdvd) (by omega)
  · have hdvd := (Nat.modEq_iff_dvd' hlt.le).mp heq.symm
    exact absurd (Nat.le_of_dvd (by omega) hdvd) (by omega)

namespace RingHolds

variable {n lo : ℕ} {slots : ℕ → α} {l : List α}

lemma nil (n : ℕ) (slots : ℕ → α) (lo : ℕ) : RingHolds n slots [] lo :=
  fun _ _ h => absurd h (Nat.not_lt_zero _)

section

variable (h : RingHolds n slots l lo)
include h

lemma head (hlo : lo < l.length) : slots (lo % n) = l[lo] :=
  h lo (Nat.le_refl lo) hlo

lemma drop : RingHolds n slots l (lo + 1) :=
  fun k hk => h k (by omega)

lemma update (hroom : l.length < lo + n) (x : α) :
    RingHolds n (Function.update slots (l.length % n) x) l lo := by
  intro k hk hlt
  rw [Function.update_of_ne (mod_ne_mod_of_lt hk (by omega) (by omega) hroom (by omega))]
  exact h k hk hlt

lemma put (hroom : l.length < lo + n) (x : α) :
    RingHolds n (Function.update slots (l.length % n) x) (l ++ [x]) lo := by
  intro k hk hlt
  by_cases hend : k = l.length
  · subst hend
    simp
  · have hlt' : k < l.length := by
      rw [List.length_append, List.length_singleton] at hlt
      omega
    rw [List.getElem_append_left hlt']
    exact h.update hroom x k hk hlt'

end

end RingHolds

end UnixPrograms
