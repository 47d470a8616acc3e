import Mathlib.Data.List.Count
import Mathlib.Data.List.Perm.Basic
import Mathlib.Data.List.TakeWhile

/-!
# Priority queues with first-come order

The content is the list of the elements in order of arrival, and `IsNext` the oldest of those with
the greatest priority.  `Delivers q l` says that `l` lists `q` in order of delivery; `insertPrio`
and taking the first element keep the two in step.
-/

namespace UnixPrograms

open List

variable {α : Type} {prio : α → ℕ}

/-- `x` is the oldest of the elements of `q` with the greatest priority, and `rest` is `q` without
it. -/
def IsNext (prio : α → ℕ) (q : List α) (x : α) (rest : List α) : Prop :=
  ∃ pre post, q = pre ++ x :: post ∧ rest = pre ++ post ∧
    (∀ y ∈ pre, prio y < prio x) ∧ ∀ y ∈ post, prio y ≤ prio x

/-- The list `l` has the elements of `q` in order of delivery: those of greater priority first, and
those of one priority in order of arrival. -/
structure Delivers (prio : α → ℕ) (q l : List α) : Prop where
  sorted : l.Pairwise fun x y => prio y ≤ prio x
  stable : ∀ p, l.filter (fun x => prio x = p) = q.filter (fun x => prio x = p)

def insertPrio (prio : α → ℕ) (x : α) (l : List α) : List α :=
  l.takeWhile (fun y => prio x ≤ prio y) ++ x :: l.dropWhile (fun y => prio x ≤ prio y)

@[simp] lemma length_insertPrio (prio : α → ℕ) (x : α) (l : List α) :
    (insertPrio prio x l).length = l.length + 1 := by
  rw [insertPrio, List.perm_middle.length_eq, length_cons, takeWhile_append_dropWhile]

lemma delivers_nil : Delivers prio [] ([] : List α) where
  sorted := List.Pairwise.nil
  stable _ := rfl

variable {l q : List α}

lemma Delivers.mem_iff (h : Delivers prio q l) {x : α} : x ∈ l ↔ x ∈ q := by
  have hx := h.stable (prio x)
  constructor
  · intro hl
    have hf : x ∈ l.filter (fun y => prio y = prio x) := mem_filter.mpr ⟨hl, by simp⟩
    rw [hx] at hf
    exact (mem_filter.mp hf).1
  · intro hq
    have hf : x ∈ q.filter (fun y => prio y = prio x) := mem_filter.mpr ⟨hq, by simp⟩
    rw [← hx] at hf
    exact (mem_filter.mp hf).1

lemma Delivers.perm (h : Delivers prio q l) : l.Perm q := by
  classical
  refine perm_iff_count.mpr fun x => ?_
  calc l.count x
      = (l.filter fun y => prio y = prio x).count x := (count_filter (by simp)).symm
    _ = (q.filter fun y => prio y = prio x).count x := by rw [h.stable (prio x)]
    _ = q.count x := count_filter (by simp)

lemma lt_of_mem_dropWhile {n : ℕ} (hs : l.Pairwise fun x y => prio y ≤ prio x) {y : α}
    (hy : y ∈ l.dropWhile (fun z => n ≤ prio z)) : prio y < n := by
  induction l with
  | nil => simp at hy
  | cons z zs ih =>
    obtain ⟨hz, hzs⟩ := pairwise_cons.mp hs
    by_cases hle : n ≤ prio z
    · rw [dropWhile_cons_of_pos (by simpa using hle)] at hy
      exact ih hzs hy
    · rw [dropWhile_cons_of_neg (by simpa using hle)] at hy
      rcases mem_cons.mp hy with rfl | hy
      · exact Nat.lt_of_not_le hle
      · exact lt_of_le_of_lt (hz y hy) (Nat.lt_of_not_le hle)

lemma Delivers.insert (h : Delivers prio q l) (x : α) :
    Delivers prio (q ++ [x]) (insertPrio prio x l) := by
  have hsplit := takeWhile_append_dropWhile (p := fun y => prio x ≤ prio y) (l := l)
  have hbefore : ∀ y ∈ l.takeWhile (fun z => prio x ≤ prio z), prio x ≤ prio y := by
    intro y hy
    simpa using mem_takeWhile_imp hy
  have hbehind : ∀ y ∈ l.dropWhile (fun z => prio x ≤ prio z), prio y < prio x :=
    fun y hy => lt_of_mem_dropWhile h.sorted hy
  have hsorted := h.sorted
  have hstable := h.stable
  unfold insertPrio
  generalize l.takeWhile (fun y => prio x ≤ prio y) = as at *
  generalize l.dropWhile (fun y => prio x ≤ prio y) = bs at *
  subst hsplit
  obtain ⟨has, hbs, hab⟩ := pairwise_append.mp hsorted
  refine ⟨pairwise_append.mpr ⟨has, ?_, ?_⟩, fun p => ?_⟩
  · exact pairwise_cons.mpr ⟨fun y hy => (hbehind y hy).le, hbs⟩
  · intro y hy z hz
    rcases mem_cons.mp hz with rfl | hz
    · exact hbefore y hy
    · exact hab y hy z hz
  · rw [filter_append, filter_append, ← hstable p, filter_append, append_assoc]
    by_cases hp : prio x = p
    · -- nothing behind the new element has its priority
      have hnone : bs.filter (fun y => prio y = p) = [] := by
        refine filter_eq_nil_iff.mpr fun y hy => ?_
        have := hbehind y hy
        simp only [decide_eq_true_eq]
        omega
      simp [hp, hnone]
    · simp [hp]

lemma Delivers.isNext {x : α} (h : Delivers prio q (x :: l)) :
    ∃ rest, IsNext prio q x rest ∧ Delivers prio rest l := by
  obtain ⟨hx, hl⟩ := pairwise_cons.mp h.sorted
  have hle : ∀ y ∈ q, prio y ≤ prio x := by
    intro y hy
    rcases mem_cons.mp (h.mem_iff.mpr hy) with rfl | hy
    · exact le_rfl
    · exact hx y hy
  have hfirst := (h.stable (prio x)).symm
  rw [filter_cons_of_pos (by simp)] at hfirst
  obtain ⟨pre, post, rfl, hpre, -, hpost⟩ := filter_eq_cons_iff.mp hfirst
  have hnone : ∀ y ∈ pre, prio y ≠ prio x := fun y hy => by simpa using hpre y hy
  refine ⟨pre ++ post, ⟨pre, post, rfl, rfl, fun y hy => ?_, fun y hy => ?_⟩, hl, fun p => ?_⟩
  · exact lt_of_le_of_ne (hle y (mem_append_left _ hy)) (hnone y hy)
  · exact hle y (mem_append_right _ (mem_cons_of_mem x hy))
  · have hs := h.stable p
    rw [filter_append] at hs ⊢
    by_cases hp : prio x = p
    · have hpre' : pre.filter (fun y => prio y = p) = [] := by
        refine filter_eq_nil_iff.mpr fun y hy => ?_
        simpa [← hp] using hnone y hy
      rw [hpre', nil_append, ← hp, hpost]
    · rwa [filter_cons_of_neg (by simpa using hp), filter_cons_of_neg (by simpa using hp)]
        at hs

end UnixPrograms
