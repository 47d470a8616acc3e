import Mathlib.Data.Int.Order.Basic
import Mathlib.Data.List.Perm.Basic
import Mathlib.Data.List.Pairwise

/-!
# Bubble sort with a count of the interchanges

Each pass of `bubblesort` brings the largest element of the range to its end, and `count` goes up
with every interchange of neighbours.  An interchange removes one inversion, and no pass is without
one unless the elements are sorted, so that `count` has grown by the number of inversions
(`bubblesort_spec`), as far as an `int` goes.
-/

namespace UnixPrograms.Bubblesort

open List

/-- The loop of `onepass` on the first `n` elements, from the present index on: the elements,
`count` and `interchanges`. -/
def onepass : ℕ → List ℤ → Int32 → List ℤ × Int32 × Bool
  | n + 2, x :: y :: a, count =>
    if x > y then
      let (a, count, _) := onepass (n + 1) (x :: a) (count + 1)
      (y :: a, count, true)
    else
      let (a, count, interchanges) := onepass (n + 1) (y :: a) count
      (x :: a, count, interchanges)
  | _, a, count => (a, count, false)

/-- The loop of `bubblesort`, with `n - i` for the index `i`. -/
def bubblesort : ℕ → List ℤ → Int32 → List ℤ × Int32
  | n + 2, a, count =>
    let (a, count, interchanges) := onepass (n + 2) a count
    if interchanges then bubblesort (n + 1) a count else (a, count)
  | _, a, count => (a, count)

/-- The number of pairs `i < j` with `a[i] > a[j]`. -/
def inversions : List ℤ → ℕ
  | [] => 0
  | x :: a => a.countP (· < x) + inversions a

variable {x m : ℤ} {a b : List ℤ}

lemma inversions_of_sorted (h : a.Pairwise (· ≤ ·)) : inversions a = 0 := by
  induction h with
  | nil => rfl
  | cons hx _ ih =>
    rw [inversions, ih, countP_eq_zero.mpr]
    intro y hy
    simpa using hx y hy

/-- A pass over `x :: a` with `k` interchanges leaves `b` and behind it the largest element `m`. -/
structure Passes (x : ℤ) (a b : List ℤ) (m : ℤ) (k : ℕ) : Prop where
  perm : b ++ [m] ~ x :: a
  max : ∀ y ∈ x :: a, y ≤ m
  inversions : inversions (x :: a) = inversions b + k
  sorted : k = 0 → b ++ [m] = x :: a ∧ (x :: a).Pairwise (· ≤ ·)

/-- The largest element does not count among the smaller ones of another element. -/
lemma Passes.countP_eq {k : ℕ} (h : Passes x a b m k) {y : ℤ} (hy : y ≤ x) :
    b.countP (· < y) = (x :: a).countP (· < y) := by
  have hcount := h.perm.countP_eq (· < y)
  have hm : y ≤ m := Int.le_trans hy (h.max x mem_cons_self)
  rw [countP_append, countP_cons_of_neg (by simpa using hm)] at hcount
  exact hcount

lemma onepass_spec (x : ℤ) (a r : List ℤ) (count : Int32) :
    ∃ b m k, Passes x a b m k ∧ onepass (a.length + 1) (x :: a ++ r) count =
      (b ++ m :: r, count + .ofNat k, decide (k ≠ 0)) := by
  induction a generalizing x count with
  | nil => exact ⟨[], x, 0, ⟨.refl _, by simp, rfl, fun _ => ⟨rfl, by simp⟩⟩, by simp [onepass]⟩
  | cons y a ih =>
    by_cases hxy : y < x
    · -- `x` is carried on
      obtain ⟨b, m, k, h, hpass⟩ := ih x (count + 1)
      have hcount := h.countP_eq (Int.le_of_lt hxy)
      have hinv := h.inversions
      refine ⟨y :: b, m, k + 1, ⟨(h.perm.cons y).trans (.swap x y a), ?_, ?_, nofun⟩, ?_⟩
      · have hxm := h.max x mem_cons_self
        exact forall_mem_cons.mpr ⟨hxm, forall_mem_cons.mpr ⟨by omega, fun z hz =>
          h.max z (mem_cons_of_mem x hz)⟩⟩
      · simp only [Bubblesort.inversions, countP_cons, decide_eq_true_eq] at hinv hcount ⊢
        rw [if_pos hxy, if_neg (by omega)] at *
        omega
      · simp only [cons_append] at hpass
        have hone : count + 1 + .ofNat k = count + .ofNat (k + 1) := by
          rw [Int32.add_assoc, Int32.add_comm 1, Int32.ofNat_add]
          rfl
        simp [onepass, hxy, hpass, hone]
    · obtain ⟨b, m, k, h, hpass⟩ := ih y count
      have hcount := h.countP_eq (not_lt.mp hxy)
      have hinv := h.inversions
      refine ⟨x :: b, m, k, ⟨h.perm.cons x, ?_, ?_, fun hk => ?_⟩, ?_⟩
      · have hym := h.max y mem_cons_self
        exact forall_mem_cons.mpr ⟨by omega, h.max⟩
      · simp only [Bubblesort.inversions] at hinv ⊢
        omega
      · obtain ⟨hsame, hsorted⟩ := h.sorted hk
        refine ⟨congrArg (x :: ·) hsame, pairwise_cons.mpr ⟨?_, hsorted⟩⟩
        refine forall_mem_cons.mpr ⟨by omega, fun z hz => ?_⟩
        have := rel_of_pairwise_cons hsorted hz
        omega
      · simp only [cons_append] at hpass
        simp [onepass, hxy, hpass]

lemma bubblesort_spec (a r : List ℤ) (count : Int32) :
    ∃ b, b ~ a ∧ b.Pairwise (· ≤ ·) ∧
      bubblesort a.length (a ++ r) count = (b ++ r, count + .ofNat (inversions a)) := by
  generalize hn : a.length = n
  induction n generalizing a r count with
  | zero =>
    obtain rfl := length_eq_zero_iff.mp hn
    exact ⟨[], .refl _, .nil, by simp [bubblesort, inversions]⟩
  | succ n ih =>
    obtain ⟨x, a, rfl⟩ := exists_cons_of_length_eq_add_one hn
    obtain rfl : a.length = n := by simpa using hn
    cases a with
    | nil => exact ⟨[x], .refl _, pairwise_singleton _ _, by simp [bubblesort, inversions]⟩
    | cons y a =>
      obtain ⟨b, m, k, h, hpass⟩ := onepass_spec x (y :: a) r count
      have hlen : b.length = (y :: a).length := by simpa using h.perm.length_eq
      simp only [length_cons, bubblesort] at hpass ⊢
      rw [hpass]
      by_cases hk : k = 0
      · -- the early exit
        obtain ⟨hsame, hsorted⟩ := h.sorted hk
        refine ⟨_, .refl _, hsorted, ?_⟩
        rw [inversions_of_sorted hsorted, ← hsame, hk]
        simp
      · obtain ⟨c, hperm, hsorted, hsort⟩ := ih b (m :: r) (count + .ofNat k) hlen
        refine ⟨c ++ [m], (hperm.append_right [m]).trans h.perm, ?_, ?_⟩
        · refine pairwise_append.mpr ⟨hsorted, pairwise_singleton _ _, fun z hz w hw => ?_⟩
          obtain rfl := mem_singleton.mp hw
          exact h.max z (h.perm.subset (mem_append_left _ (hperm.subset hz)))
        · have hcount : count + .ofNat k + .ofNat (inversions b) =
              count + .ofNat (inversions (x :: y :: a)) := by
            rw [h.inversions, Nat.add_comm, Int32.ofNat_add, Int32.add_assoc]
          simp only [length_cons] at hsort
          simp [hk, hsort, hcount]

/-- `bubblesort` leaves a sorted permutation of the array.  The count that it adds to `count` is the
number of inversions, if the sum is not above the largest `int`. -/
theorem bubblesort_correct (a : List ℤ) (count : Int32) :
    (bubblesort a.length a count).1 ~ a ∧ (bubblesort a.length a count).1.Pairwise (· ≤ ·) ∧
      (count.toInt + inversions a ≤ Int32.maxValue.toInt →
        (bubblesort a.length a count).2.toInt = count.toInt + inversions a) := by
  obtain ⟨b, hperm, hsorted, hsort⟩ := bubblesort_spec a [] count
  rw [append_nil, append_nil] at hsort
  rw [hsort]
  refine ⟨hperm, hsorted, fun hfit => ?_⟩
  have hlow := Int32.le_toInt count
  have hmax : Int32.maxValue.toInt = 2147483647 := by decide
  have hsize : (Int32.size : ℤ) = 4294967296 := rfl
  rw [Int32.toInt_add, Int32.toInt_ofNat', Int.add_bmod_bmod]
  exact Int.bmod_eq_of_le (by omega) (by omega)

/-- `count` is kept between calls, and at the largest `int` one interchange is too many. -/
theorem bubblesort_count_overflows :
    (bubblesort 2 [1, 0] Int32.maxValue).2.toInt ≠ Int32.maxValue.toInt + inversions [1, 0] := by
  decide

end UnixPrograms.Bubblesort
