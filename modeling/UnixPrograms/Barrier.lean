import Mathlib.Algebra.BigOperators.Group.Finset.Piecewise
import Mathlib.Algebra.Order.BigOperators.Group.Finset

/-!
# The merge of sorted ranges (`barrier.c`)

`merge` puts together the ranges that the threads have sorted: each round takes the smallest number
at the indices of the ranges, starting from `LONG_MAX`.  A read outside the range of its index ends
the model.
-/

namespace UnixPrograms.Barrier

open Function Multiset

def longMax : ℤ := 2 ^ 63 - 1

variable (N T : ℕ) (nums : ℕ → ℤ)

def readNum (i k : ℕ) : Option ℤ := if i * T ≤ k ∧ k < (i + 1) * T then some (nums k) else none

def pick (idx : ℕ → ℕ) (acc : ℤ × Option ℕ) (i : ℕ) : Option (ℤ × Option ℕ) :=
  if idx i < (i + 1) * T then
    (readNum T nums i (idx i)).map fun v => if v < acc.1 then (v, some i) else acc
  else some acc

/-- The last `k` rounds of the outer loop, which give the last `k` numbers of `snums`. -/
def mergeLoop : ℕ → (ℕ → ℕ) → Option ℕ → Option (List ℤ)
  | 0, _, _ => some []
  | k + 1, idx, minidx => do
    let acc ← (List.range N).foldlM (pick T nums idx) (longMax, minidx)
    let i ← acc.2
    let v ← readNum T nums i (idx i)
    let out ← mergeLoop k (update idx i (idx i + 1)) (some i)
    some (v :: out)

def merge : Option (List ℤ) := mergeLoop N T nums (N * T) (fun i => i * T) none

/-! ## What is left of the ranges -/

def left (i k : ℕ) : Multiset ℤ := ((List.range' k ((i + 1) * T - k)).map nums : List ℤ)

def rest (idx : ℕ → ℕ) : Multiset ℤ := ∑ i ∈ Finset.range N, left T nums i (idx i)

variable {N T nums} {idx : ℕ → ℕ} {i k : ℕ}

lemma left_eq_cons (h : k < (i + 1) * T) : left T nums i k = nums k ::ₘ left T nums i (k + 1) := by
  have hlen : (i + 1) * T - k = (i + 1) * T - (k + 1) + 1 := by omega
  rw [left, hlen, List.range'_succ]
  rfl

lemma mem_left {x : ℤ} : x ∈ left T nums i k ↔ ∃ j, k ≤ j ∧ j < (i + 1) * T ∧ nums j = x := by
  simp only [left, mem_coe, List.mem_map, List.mem_range'_1]
  constructor
  · rintro ⟨j, hj, rfl⟩
    exact ⟨j, by omega, by omega, rfl⟩
  · rintro ⟨j, hk, hj, rfl⟩
    exact ⟨j, by omega, rfl⟩

lemma mem_rest {x : ℤ} :
    x ∈ rest N T nums idx ↔ ∃ i < N, ∃ j, idx i ≤ j ∧ j < (i + 1) * T ∧ nums j = x := by
  simp [rest, mem_sum, mem_left]

lemma rest_eq_cons (hi : i < N) (h : idx i < (i + 1) * T) :
    rest N T nums idx = nums (idx i) ::ₘ rest N T nums (update idx i (idx i + 1)) := by
  have hmem : i ∈ Finset.range N := Finset.mem_range.mpr hi
  simp only [rest, apply_update (left T nums) idx i]
  rw [Finset.sum_update_of_mem hmem, ← cons_add, ← left_eq_cons h,
    Finset.sdiff_singleton_eq_erase, ← Finset.add_sum_erase _ _ hmem]

lemma rest_start (N : ℕ) :
    rest N T nums (fun i => i * T) = ((List.range (N * T)).map nums : List ℤ) := by
  induction N with
  | zero => simp [rest]
  | succ N ih =>
    have hT : (N + 1) * T - N * T = T := by rw [Nat.succ_mul, Nat.add_sub_cancel_left]
    rw [rest, Finset.sum_range_succ, ← rest, ih, left, hT, Nat.succ_mul, List.range_add,
      List.map_append, List.range'_eq_map_range, coe_add]

/-! ## The loops -/

lemma exists_pick (hidx : ∀ i < N, i * T ≤ idx i) (minidx : Option ℕ) {n : ℕ} (hn : n ≤ N) :
    ∃ acc, (List.range n).foldlM (pick T nums idx) (longMax, minidx) = some acc ∧
      (∀ i < n, idx i < (i + 1) * T → acc.1 ≤ nums (idx i)) ∧
      (acc.1 = longMax ∨ ∃ i < n, acc = (nums (idx i), some i) ∧ idx i < (i + 1) * T) := by
  induction n with
  | zero => exact ⟨_, rfl, by simp, .inl rfl⟩
  | succ n ih =>
    obtain ⟨acc, hacc, hle, hfound⟩ := ih (by omega)
    have hkeep : ∀ i < n + 1, i ≠ n → idx i < (i + 1) * T → acc.1 ≤ nums (idx i) :=
      fun i hi hne => hle i (by omega)
    have hfound' : acc.1 = longMax ∨
        ∃ i < n + 1, acc = (nums (idx i), some i) ∧ idx i < (i + 1) * T :=
      hfound.imp_right fun ⟨i, hi, h⟩ => ⟨i, by omega, h⟩
    rw [List.range_succ, List.foldlM_append, hacc]
    by_cases hlt : idx n < (n + 1) * T
    · have hread : readNum T nums n (idx n) = some (nums (idx n)) :=
        if_pos ⟨hidx n (by omega), hlt⟩
      by_cases hmin : nums (idx n) < acc.1
      · refine ⟨(nums (idx n), some n), by simp [pick, hlt, hread, hmin], ?_, ?_⟩
        · intro i hi hi'
          rcases eq_or_ne i n with rfl | hne
          · exact le_rfl
          · exact hmin.le.trans (hkeep i hi hne hi')
        · exact .inr ⟨n, n.lt_succ_self, rfl, hlt⟩
      · refine ⟨acc, by simp [pick, hlt, hread, hmin], ?_, hfound'⟩
        intro i hi hi'
        rcases eq_or_ne i n with rfl | hne
        · exact not_lt.mp hmin
        · exact hkeep i hi hne hi'
    · refine ⟨acc, by simp [pick, hlt], ?_, hfound'⟩
      intro i hi hi'
      exact hkeep i hi (fun he => hlt (he ▸ hi')) hi'

section Merge

variable (hnums : ∀ k < N * T, nums k < longMax)
  (hsorted : ∀ i < N, ∀ j k, i * T ≤ j → j ≤ k → k < (i + 1) * T → nums j ≤ nums k)

include hnums hsorted

lemma mergeLoop_spec (hidx : ∀ i < N, i * T ≤ idx i) (minidx : Option ℕ)
    (hcard : (rest N T nums idx).card = k) : ∃ out, mergeLoop N T nums k idx minidx = some out ∧
      out.Pairwise (· ≤ ·) ∧ (out : Multiset ℤ) = rest N T nums idx := by
  induction k generalizing idx minidx with
  | zero => exact ⟨[], rfl, .nil, (card_eq_zero.mp hcard).symm⟩
  | succ k ih =>
    obtain ⟨acc, hacc, hle, hfound⟩ := exists_pick hidx minidx le_rfl
    have hpos : 0 < (rest N T nums idx).card := by omega
    obtain ⟨x, hx⟩ := card_pos_iff_exists_mem.mp hpos
    obtain ⟨i, hi, j, hj, hlt, -⟩ := mem_rest.mp hx
    have hsmall : nums (idx i) < longMax :=
      hnums _ ((hj.trans_lt hlt).trans_le (Nat.mul_le_mul_right T hi))
    -- a number is left, so `LONG_MAX` has been replaced
    obtain ⟨m, hm, rfl, hmlt⟩ :=
      hfound.resolve_left ((hle i hi (hj.trans_lt hlt)).trans_lt hsmall).ne
    have hcons : rest N T nums idx = _ := rest_eq_cons hm hmlt
    have hidx' : ∀ i < N, i * T ≤ update idx m (idx m + 1) i := by
      intro i hi
      rcases eq_or_ne i m with rfl | hne
      · rw [update_self]
        exact (hidx i hi).trans (Nat.le_succ _)
      · rw [update_of_ne hne]
        exact hidx i hi
    obtain ⟨out, hout, hpairwise, hrest⟩ := ih hidx' (some m) (by
      rw [hcons, card_cons] at hcard
      omega)
    have hread : readNum T nums m (idx m) = some (nums (idx m)) := if_pos ⟨hidx m hm, hmlt⟩
    refine ⟨nums (idx m) :: out, ?_, List.pairwise_cons.mpr ⟨fun y hy => ?_, hpairwise⟩, ?_⟩
    · simp [mergeLoop, hacc, hread, hout]
    · have hmem : y ∈ rest N T nums idx := by
        rw [hcons, ← hrest]
        exact mem_cons_of_mem hy
      obtain ⟨i, hi, j, hj, hlt, rfl⟩ := mem_rest.mp hmem
      exact (hle i hi (hj.trans_lt hlt)).trans (hsorted i hi _ _ (hidx i hi) hj hlt)
    · rw [hcons, ← hrest, cons_coe]

/-- `merge` reads every number within the range of its index, and gives a sorted permutation. -/
theorem merge_sorted : ∃ snums, merge N T nums = some snums ∧ snums.Pairwise (· ≤ ·) ∧
    snums.Perm ((List.range (N * T)).map nums) := by
  have hcard : (rest N T nums fun i => i * T).card = N * T := by simp [rest_start]
  obtain ⟨snums, hmerge, hpairwise, hrest⟩ :=
    mergeLoop_spec hnums hsorted (fun _ _ => le_rfl) none hcard
  rw [rest_start] at hrest
  exact ⟨snums, hmerge, hpairwise, coe_eq_coe.mp hrest⟩

end Merge

/-- Two ranges of two numbers each. -/
theorem merge_sorted_two : ∃ snums, merge 2 2 ([3, 7, 1, 8].getD · 0) = some snums ∧
    snums.Pairwise (· ≤ ·) ∧ snums.Perm [3, 7, 1, 8] := by
  have hranges : ∀ i < 2, ∀ k < (i + 1) * 2, ∀ j ≤ k, i * 2 ≤ j →
      ([3, 7, 1, 8] : List ℤ).getD j 0 ≤ [3, 7, 1, 8].getD k 0 := by decide
  exact merge_sorted (by decide) fun i hi j k hj hjk hk => hranges i hi k hk j hjk hj

end UnixPrograms.Barrier
